import LightningRelay.System

/-!
# A program that runs alone

`act` performs the operations of one task while no other task is active.  The operator and LDK
answer from a fixed sequence, one element for each call, so that a statement about every sequence is
a statement about everything they may answer.  `exec_queryStateWithRetry` says what the query loop
does with the answers it gets.
-/

set_option autoImplicit false

namespace LightningRelay

open Async

/-- Operations that the operator or LDK answers. -/
def Op.asks : Op → Bool
  | .operator _ _ | .ldk _ => true
  | _ => false

/-- The world of a task that runs alone, and the answers it has yet to get. -/
structure Alone where
  world : World
  answers : ℕ → Answers

namespace Alone

variable (tid : ℕ) (c : Call)

/-- One operation of the task. -/
def act (o : Op) (σ : Alone) : Option (o.Resp × Alone) :=
  match World.perform tid c o (σ.answers 0) σ.world with
  | .resume r w _ => some (r, ⟨w, if o.asks then fun n => σ.answers (n + 1) else σ.answers⟩)
  | .abort _ => none

/-- After a call of the operator. -/
def told (σ : Alone) (about : About) (call : OperatorCall) : Alone :=
  ⟨σ.world.note tid c (.operator about call) ((σ.answers 0).operator about call),
    fun n => σ.answers (n + 1)⟩

/-- After a call of the database. -/
def stored (σ : Alone) (call : DbCall) : Alone :=
  ⟨{ σ.world with db := (σ.world.db.call call).2 }.note tid c (.db call) (σ.world.db.call call).1,
    σ.answers⟩

/-- After a sleep. -/
def slept (σ : Alone) (secs : ℕ) : Alone := ⟨σ.world.note tid c (.sleep secs) (), σ.answers⟩

/-- After a reading of the clock. -/
def timed (σ : Alone) : Alone := ⟨σ.world.note tid c .now σ.world.clock, σ.answers⟩

variable {tid c} {α : Type} {σ : Alone}

theorem exec_operator (about : About) (call : OperatorCall)
    (f : Except CardanoError call.Val → Relay α) :
    (operator about call >>= f).exec (act tid c) σ =
      (f ((σ.answers 0).operator about call)).exec (act tid c) (σ.told tid c about call) := rfl

theorem exec_db (call : DbCall) (f : call.Ret → Relay α) :
    (db call >>= f).exec (act tid c) σ =
      (f (σ.world.db.call call).1).exec (act tid c) (σ.stored tid c call) := rfl

theorem exec_currentTimestampMs (f : ℤ → Relay α) :
    (currentTimestampMs >>= f).exec (act tid c) σ =
      (f σ.world.clock).exec (act tid c) (σ.timed tid c) := rfl

end Alone

/-! ## The query loop -/

/-- The entry that an answer to a state query shows. -/
def found {α : Type} (find : ContractState → Option α) : Except CardanoError ContractState → Option α
  | .ok state => find state
  | .error _ => none

/-- One of the first `n` answers shows the entry. -/
def shown {α : Type} (about : About) (find : ContractState → Option α) (n : ℕ) (answers : ℕ → Answers) :
    Bool :=
  (List.range n).any fun i => (found find ((answers i).operator about .queryState)).isSome

/-- Entries of state queries and sleeps. -/
def Entry.waits (e : Entry) : Bool :=
  match e.op with
  | .operator _ .queryState | .sleep _ => true
  | _ => false

namespace Alone

variable {tid : ℕ} {c : Call} {α : Type} {about : About} {find : ContractState → Option α}

theorem shown_succ (n : ℕ) (answers : ℕ → Answers) : shown about find (n + 1) answers =
    ((found find ((answers 0).operator about .queryState)).isSome ||
      shown about find n fun i => answers (i + 1)) := by
  simp [shown, List.range_succ_eq_map, Function.comp_def]

/-- The log has grown by queries and sleeps. -/
def Waited (σ σ' : Alone) : Prop :=
  ∃ new, σ'.world.log = new ++ σ.world.log ∧ ∀ e ∈ new, e.waits = true

theorem Waited.cons {σ σ₁ σ' : Alone} {e : Entry} (h : Waited σ₁ σ')
    (hlog : σ₁.world.log = e :: σ.world.log) (he : e.waits = true) : Waited σ σ' := by
  obtain ⟨new, hnew, hall⟩ := h
  refine ⟨new ++ [e], ?_, ?_⟩
  · rw [hnew, hlog, List.append_assoc]
    rfl
  · intro x hx
    rcases List.mem_append.1 hx with hx | hx
    · exact hall x hx
    · exact List.mem_singleton.1 hx ▸ he

/-- How a query loop ends with `n` attempts left: with an entry that an answer showed, or with an
error if none of the `n` answers shows one. -/
inductive Queried (find : ContractState → Option α) (about : About) (n : ℕ) (σ : Alone) :
    Except String α → Prop where
  | ok {x : α} {state : ContractState} : shown about find n σ.answers = true →
      find state = some x → Queried find about n σ (.ok x)
  | error {e : String} : shown about find n σ.answers = false → Queried find about n σ (.error e)

theorem Queried.later {n : ℕ} {σ σ₁ : Alone} {r : Except String α} (h : Queried find about n σ₁ r)
    (hnone : found find ((σ.answers 0).operator about .queryState) = none)
    (hσ : σ₁.answers = fun i => σ.answers (i + 1)) : Queried find about (n + 1) σ r := by
  have hshown : shown about find (n + 1) σ.answers = shown about find n σ₁.answers := by
    rw [shown_succ, hnone, hσ]
    rfl
  cases h with
  | ok hs hf => exact .ok (hshown.trans hs) hf
  | error hs => exact .error (hshown.trans hs)

theorem exec_queryAttempts (maxAttempts delay : ℕ) (context : String) (n : ℕ) (σ : Alone) :
    ∃ r σ', (queryAttempts about maxAttempts delay context find n).exec (act tid c) σ = (some r, σ') ∧
      Waited σ σ' ∧ Queried find about n σ r := by
  induction n generalizing σ with
  | zero => exact ⟨_, σ, rfl, ⟨[], rfl, by simp⟩, .error rfl⟩
  | succ n ih =>
    -- another attempt, after an answer that does not show the entry
    have hsleep : found find ((σ.answers 0).operator about .queryState) = none →
        ∃ r σ', (sleep delay >>= fun _ =>
          queryAttempts about maxAttempts delay context find n).exec (act tid c)
            (σ.told tid c about .queryState) = (some r, σ') ∧
          Waited σ σ' ∧ Queried find about (n + 1) σ r := by
      intro hnone
      obtain ⟨r, σ', he, hw, hq⟩ := ih ((σ.told tid c about .queryState).slept tid c delay)
      exact ⟨r, σ', he, (hw.cons rfl rfl).cons rfl rfl, hq.later hnone rfl⟩
    unfold queryAttempts
    rw [exec_operator]
    rcases hans : (σ.answers 0).operator about .queryState with e | state
    · rw [hans] at hsleep
      dsimp only
      split_ifs with hn
      · exact hsleep rfl
      · obtain rfl : n = 0 := by omega
        refine ⟨_, _, rfl, ⟨[_], rfl, ?_⟩, .error ?_⟩
        · simp [Entry.waits]
        · rw [shown_succ, hans]
          rfl
    · rw [hans] at hsleep
      dsimp only
      rcases hfind : find state with _ | x
      · dsimp only
        split_ifs with hn
        · exact hsleep hfind
        · obtain ⟨r, σ', he, hw, hq⟩ := ih (σ.told tid c about .queryState)
          exact ⟨r, σ', he, hw.cons rfl rfl, hq.later (hans ▸ hfind) rfl⟩
      · refine ⟨_, _, rfl, ⟨[_], rfl, ?_⟩, .ok ?_ hfind⟩
        · simp [Entry.waits]
        · rw [shown_succ, hans, found, hfind]
          rfl

/-- The query loop returns an entry that one of its answers shows, or an error if none of the
`maxAttempts` answers shows one: failed queries count like answers without the entry. -/
theorem exec_queryStateWithRetry (tid : ℕ) (c : Call) (about : About)
    (find : ContractState → Option α) (maxAttempts delay : ℕ) (context : String) (σ : Alone) :
    ∃ r σ', (queryStateWithRetry about maxAttempts delay context find).exec (act tid c) σ =
      (some r, σ') ∧ Waited σ σ' ∧ Queried find about maxAttempts σ r :=
  exec_queryAttempts maxAttempts delay context maxAttempts σ

end Alone

end LightningRelay
