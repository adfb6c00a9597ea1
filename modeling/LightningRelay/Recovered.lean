import LightningRelay.Alone
import LightningRelay.Recovery

/-!
# What recovery does to a row

Recovery goes through three snapshots of stuck rows.  `Alone.view` is what there is to see of one row:
the row and the calls of the operator on its behalf.  Each turn of the loops changes the view of one
row only (`Turned`), and a row occurs in a snapshot once.

* `recovery_clears_stuck`: recovery changes the stuck rows only, and ends with none that waits for a
  verification or a payment.
-/

set_option autoImplicit false

namespace LightningRelay

open Async

/-- A row of the database. -/
inductive Row where
  | swap (m : SwapMapping)
  | offramp (m : OfframpMapping)

def Row.isSwap (st : SwapStatus) : Row → Bool
  | .swap m => m.status = st
  | .offramp _ => false

def Row.isOfframp (st : OfframpStatus) : Row → Bool
  | .swap _ => false
  | .offramp m => m.status = st

/-- Change the row of a swap. -/
def Row.onSwap (f : SwapMapping → SwapMapping) : Row → Row
  | .swap m => .swap (f m)
  | .offramp m => .offramp m

/-- Change the row of an offramp. -/
def Row.onOfframp (f : OfframpMapping → OfframpMapping) : Row → Row
  | .swap m => .swap m
  | .offramp m => .offramp (f m)

/-- A swap whose entry is gone, or whose transaction `tx` was accepted. -/
def Row.completeSwap (tx : Option String) : Option Row → Option Row :=
  Option.map (Row.onSwap fun r => { r with status := .completed, cardanoTxHash := tx })

/-- An offramp whose entry is gone, or whose transaction was accepted. -/
def Row.completeDepositing (_ : Option String) : Option Row → Option Row :=
  Option.map (Row.onOfframp (SwapDb.coalesce .completed none none none))

/-- What becomes of an offramp whose payment was cut off. -/
def OfframpMapping.crashed (r : OfframpMapping) : OfframpMapping :=
  if r.status = .payingLightning then
    { r with
      status := .failed
      errorMessage := some "relay crashed during Lightning payment, awaiting expiry for on-chain cancel" }
  else r

/-- The row that a call of the operator is about. -/
def World.row (w : World) : About → Option Row
  | .swap h => (w.swap h).map .swap
  | .offramp id => (w.offramp id).map .offramp
  | .pool => none

namespace Entry

/-- The row that the entry's call of the operator is about. -/
def about? (e : Entry) : Option About :=
  match e.op with
  | .operator about _ => some about
  | _ => none

/-- A transaction could not be built or submitted. -/
def fails : Entry → Bool
  | ⟨_, _, .operator _ .queryState, _⟩ => false
  | ⟨_, _, .operator _ _, .error _⟩ => true
  | _ => false

/-- The hash of a transaction that fulfills an entry and was accepted. -/
def fulfills? : Entry → Option String
  | ⟨_, _, .operator _ (.submitTx ⟨.fulfillInvoice _, _⟩), .ok h⟩
  | ⟨_, _, .operator _ (.submitTx ⟨.fulfillOfframp _, _⟩), .ok h⟩ => some h
  | _ => none

variable {tid : ℕ} {c : Call} {about : About} {call : OperatorCall}

theorem fails_ok {v : call.Val} : (⟨tid, c, .operator about call, .ok v⟩ : Entry).fails = false := by
  cases call <;> rfl

theorem fulfills?_error {e : CardanoError} :
    (⟨tid, c, .operator about call, .error e⟩ : Entry).fulfills? = none := by
  unfold fulfills?
  split <;> first | rfl | cases ‹_ = _›

theorem fulfills?_of_ne {r : Except CardanoError call.Val} (h : ∀ tx, call ≠ .submitTx tx) :
    (⟨tid, c, .operator about call, r⟩ : Entry).fulfills? = none := by
  cases call with
  | submitTx tx => exact absurd rfl (h tx)
  | _ => rfl

theorem eq_of_fulfills? {tx : SignedTx} {h h' : String}
    (hh : (⟨tid, c, .operator about (.submitTx tx), .ok h⟩ : Entry).fulfills? = some h') : h = h' := by
  unfold fulfills? at hh
  split at hh
  · simp_all
  · simp_all
  · cases hh

end Entry

namespace Alone

/-- What there is to see of a row: the row, and the calls of the operator about it. -/
structure View where
  row : Option Row
  calls : List Entry

def view (a : About) (σ : Alone) : View :=
  ⟨σ.world.row a, σ.world.log.filter fun e => e.about? = some a⟩

/-- Between `σ` and `σ'` only the row `a` was worked on: it was changed by `f`, and the calls `new`
were made for it. -/
structure Turned (a : About) (f : Option Row → Option Row) (new : List Entry) (σ σ' : Alone) : Prop where
  others : ∀ b, b ≠ a → σ'.view b = σ.view b
  self : σ'.view a = ⟨f (σ.world.row a), new ++ (σ.view a).calls⟩

variable {tid : ℕ} {c : Call} {a : About} {f g : Option Row → Option Row} {new new' : List Entry}
  {σ σ' σ₁ σ₂ : Alone}

theorem row_note (w : World) (o : Op) (r : o.Resp) (b : About) :
    (w.note tid c o r).row b = w.row b := by
  cases b <;> rfl

/-- The view of a row after an entry that is not about it. -/
theorem view_of_ne {e : Entry} {b : About} (hlog : σ'.world.log = e :: σ.world.log)
    (hb : e.about? ≠ some b) : σ'.view b = ⟨σ'.world.row b, (σ.view b).calls⟩ := by
  simp [view, hlog, hb]

/-- The view of a row after an entry that is about it. -/
theorem view_of_eq {e : Entry} {b : About} (hlog : σ'.world.log = e :: σ.world.log)
    (hb : e.about? = some b) : σ'.view b = ⟨σ'.world.row b, e :: (σ.view b).calls⟩ := by
  simp [view, hlog, hb]

namespace Turned

theorem refl : Turned a id [] σ σ := ⟨fun _ _ => rfl, rfl⟩

theorem row (h : Turned a f new σ σ') : σ'.world.row a = f (σ.world.row a) :=
  congrArg View.row h.self

theorem trans (h : Turned a f new σ σ₁) (h' : Turned a g new' σ₁ σ₂) :
    Turned a (g ∘ f) (new' ++ new) σ σ₂ where
  others b hb := (h'.others b hb).trans (h.others b hb)
  self := by
    rw [h'.self, h.self, h.row, List.append_assoc]
    rfl

variable (tid c) in
/-- A call of the operator about the row. -/
theorem told (call : OperatorCall) : Turned a id
    [⟨tid, c, .operator a call, (σ.answers 0).operator a call⟩] σ (σ.told tid c a call) where
  others b hb := by
    refine (view_of_ne (σ := σ) rfl ?_).trans ?_
    · exact fun h => hb (Option.some.inj h).symm
    · rw [Alone.told, row_note]
      rfl
  self := by
    refine (view_of_eq (σ := σ) rfl rfl).trans ?_
    rw [Alone.told, row_note]
    rfl

/-- A call of the database that writes to no other row. -/
theorem stored {call : DbCall}
    (hother : ∀ b, b ≠ a → (σ.stored tid c call).world.row b = σ.world.row b)
    (hself : (σ.stored tid c call).world.row a = f (σ.world.row a)) :
    Turned a f [] σ (σ.stored tid c call) where
  others b hb := by
    refine (view_of_ne (σ := σ) rfl (by exact nofun)).trans ?_
    rw [hother b hb]
    rfl
  self := by
    refine (view_of_ne (σ := σ) rfl (by exact nofun)).trans ?_
    rw [hself]
    rfl

/-- An operation that is no call of the operator and changes no row. -/
theorem noted {o : Op} {r : o.Resp} (ho : (⟨tid, c, o, r⟩ : Entry).about? = none) :
    Turned a id [] σ ⟨σ.world.note tid c o r, σ.answers⟩ := by
  have hview : ∀ b, view b ⟨σ.world.note tid c o r, σ.answers⟩ = σ.view b := by
    intro b
    refine (view_of_ne (σ := σ) rfl (by rw [ho]; exact nofun)).trans ?_
    rw [row_note]
    rfl
  exact ⟨fun b _ => hview b, hview a⟩

theorem slept (n : ℕ) : Turned a id [] σ (σ.slept tid c n) := noted rfl

theorem timed : Turned a id [] σ (σ.timed tid c) := noted rfl

theorem congr (h : Turned a f new σ σ') (hg : f (σ.world.row a) = g (σ.world.row a)) :
    Turned a g new σ σ' := ⟨h.others, by rw [h.self, hg]⟩

/-- A call of the database that changes the swap `h` by `g`. -/
theorem storedSwap {call : DbCall} {h : String} {g : SwapMapping → SwapMapping}
    (hswap : ∀ k row, call.onSwap k row = if k = h then row.map g else row)
    (hofframp : ∀ k row, call.onOfframp k row = row) :
    Turned (.swap h) (Option.map (Row.onSwap g)) [] σ (σ.stored tid c call) := by
  have hrow : ∀ k, (σ.stored tid c call).world.swap k =
      if k = h then (σ.world.swap k).map g else σ.world.swap k := by
    intro k
    rw [← hswap]
    exact SwapDb.getByPaymentHash_call σ.world.db call k
  refine stored (fun b hb => ?_) ?_
  · cases b with
    | swap k =>
      have hne : k ≠ h := fun heq => hb (heq ▸ rfl)
      simp only [World.row, hrow, if_neg hne]
    | offramp k =>
      have hsame : (σ.stored tid c call).world.offramp k = σ.world.offramp k :=
        (SwapDb.getOfframpById_call σ.world.db call k).trans (hofframp k _)
      simp only [World.row, hsame]
    | pool => rfl
  · simp only [World.row, hrow, if_true, Option.map_map]
    rfl

/-- A call of the database that changes the offramp `id` by `g`. -/
theorem storedOfframp {call : DbCall} {id : ℤ} {g : OfframpMapping → OfframpMapping}
    (hofframp : ∀ k row, call.onOfframp k row = if k = id then row.map g else row)
    (hswap : ∀ k row, call.onSwap k row = row) :
    Turned (.offramp id) (Option.map (Row.onOfframp g)) [] σ (σ.stored tid c call) := by
  have hrow : ∀ k, (σ.stored tid c call).world.offramp k =
      if k = id then (σ.world.offramp k).map g else σ.world.offramp k := by
    intro k
    rw [← hofframp]
    exact SwapDb.getOfframpById_call σ.world.db call k
  refine stored (fun b hb => ?_) ?_
  · cases b with
    | swap k =>
      have hsame : (σ.stored tid c call).world.swap k = σ.world.swap k :=
        (SwapDb.getByPaymentHash_call σ.world.db call k).trans (hswap k _)
      simp only [World.row, hsame]
    | offramp k =>
      have hne : k ≠ id := fun heq => hb (heq ▸ rfl)
      simp only [World.row, hrow, if_neg hne]
    | pool => rfl
  · simp only [World.row, hrow, if_true, Option.map_map]
    rfl

/-- A call of the database that only reads. -/
theorem read {call : DbCall} (hdb : (σ.world.db.call call).2 = σ.world.db) :
    Turned a id [] σ (σ.stored tid c call) := by
  have hrow : ∀ b, (σ.stored tid c call).world.row b = σ.world.row b := by
    intro b
    rw [Alone.stored, row_note, hdb]
  exact stored (fun b _ => hrow b) (hrow a)

end Turned

/-! ## The turn of a stuck row -/

/-- The queries of a turn: nothing has changed, and nothing was built or submitted. -/
def Searched (a : About) (σ σ' : Alone) : Prop :=
  ∃ new, Turned a id new σ σ' ∧ ∀ e ∈ new, e.fails = false ∧ e.fulfills? = none

theorem exec_search {α : Type} (a : About) (maxAttempts delay : ℕ) (context : String)
    (find : ContractState → Option α) (σ : Alone) :
    ∃ r σ', (queryStateWithRetry a maxAttempts delay context find).exec (act tid c) σ =
      (some r, σ') ∧ Searched a σ σ' ∧ ∀ x, r = .ok x → ∃ state, find state = some x := by
  refine exec_queryStateWithRetry_keep ?_ ?_ ⟨[], .refl, fun _ h => absurd h List.not_mem_nil⟩
  · rintro n σ' ⟨new, ht, hnew⟩
    exact ⟨_, σ'.slept tid c n, rfl, new, ht.trans (.slept n), hnew⟩
  · rintro σ' ⟨new, ht, hnew⟩
    exact ⟨_, σ'.told tid c a .queryState, rfl, _, ht.trans (.told tid c .queryState),
      List.forall_mem_cons.2 ⟨⟨rfl, rfl⟩, hnew⟩⟩

/-- How the turn of a stuck row ends, by the function that it has applied to the row and the calls
that it has made: the row is left as it is and no transaction was accepted, or it is completed and
nothing has failed. -/
inductive Settled (complete : Option String → Option Row → Option Row) :
    (Option Row → Option Row) → List Entry → Prop where
  | left {new : List Entry} : (∀ e ∈ new, e.fulfills? = none) → Settled complete id new
  | done {new : List Entry} {tx : Option String} : (∀ e ∈ new, e.fails = false) →
      (∀ e ∈ new, ∀ h, e.fulfills? = some h → tx = some h) → Settled complete (complete tx) new

theorem turned_recoverEntry {α : Type} {context : String} {find : ContractState → Option α}
    {build : α → OperatorCall} {sign : (x : α) → (build x).Val → SignedTx}
    {complete : Option String → Relay Unit} {done : Option String → Option Row → Option Row}
    (hbuild : ∀ x tx, build x ≠ .submitTx tx)
    (hcomplete : ∀ tx (σ : Alone), ∃ σ', (complete tx).exec (act tid c) σ = (some (), σ') ∧
      Turned a (done tx) [] σ σ') (σ : Alone) :
    ∃ σ' f new, (recoverEntry a context find build sign complete).exec (act tid c) σ =
      (some (), σ') ∧ Turned a f new σ σ' ∧ Settled done f new := by
  obtain ⟨r, σ₁, hexec, ⟨new, ht₁, hnew⟩, -⟩ := exec_search a 3 5 context find σ
  unfold recoverEntry
  rw [Prog.exec_bind _ hexec]
  rcases r with e | x
  · obtain ⟨σ', he, ht⟩ := hcomplete none σ₁
    refine ⟨σ', _, _, he, ht₁.trans ht, .done (fun e he => (hnew e he).1) fun e he h hh => ?_⟩
    rw [(hnew e he).2] at hh
    cases hh
  dsimp only
  rw [exec_operator]
  have ht₂ := ht₁.trans (Turned.told tid c (build x))
  rcases hb : (σ₁.answers 0).operator a (build x) with e | v
  · refine ⟨_, _, _, rfl, ht₂, .left (List.forall_mem_cons.2 ⟨?_, fun e he => (hnew e he).2⟩)⟩
    exact Entry.fulfills?_of_ne (hbuild x)
  rw [hb] at ht₂
  dsimp only
  rw [exec_operator]
  have ht₃ := ht₂.trans (Turned.told tid c (.submitTx (sign x v)))
  rcases hs : ((σ₁.told tid c a (build x)).answers 0).operator a (.submitTx (sign x v)) with e | h
  · rw [hs] at ht₃
    refine ⟨_, _, _, rfl, ht₃, .left (List.forall_mem_cons.2 ⟨Entry.fulfills?_error, ?_⟩)⟩
    exact List.forall_mem_cons.2 ⟨Entry.fulfills?_of_ne (hbuild x), fun e he => (hnew e he).2⟩
  · rw [hs] at ht₃
    obtain ⟨σ', he, ht⟩ := hcomplete (some h) ((σ₁.told tid c a (build x)).told tid c a _)
    refine ⟨σ', _, _, he, ht₃.trans ht, .done ?_ ?_⟩
    · refine List.forall_mem_cons.2 ⟨Entry.fails_ok, List.forall_mem_cons.2 ⟨Entry.fails_ok, ?_⟩⟩
      exact fun e he => (hnew e he).1
    · refine List.forall_mem_cons.2 ⟨fun h' hh => congrArg some (Entry.eq_of_fulfills? hh), ?_⟩
      refine List.forall_mem_cons.2 ⟨fun h' hh => ?_, fun e he h' hh => ?_⟩
      · rw [Entry.fulfills?_of_ne (hbuild x)] at hh
        cases hh
      · rw [(hnew e he).2] at hh
        cases hh

variable (tid c) in
theorem turned_recoverSwap (m : SwapMapping) (σ : Alone) :
    ∃ σ' f new, (recoverSwap m).exec (act tid c) σ = (some (), σ') ∧
      Turned (.swap m.paymentHash) f new σ σ' ∧ Settled Row.completeSwap f new := by
  refine turned_recoverEntry ?_ ?_ σ
  · exact fun _ _ => nofun
  · exact fun _ _ => ⟨_, rfl, .storedSwap (fun _ _ => rfl) fun _ _ => rfl⟩

variable (tid c) in
theorem turned_recoverDepositing (m : OfframpMapping) (σ : Alone) :
    ∃ σ' f new, (recoverDepositing m).exec (act tid c) σ = (some (), σ') ∧
      Turned (.offramp m.offrampId) f new σ σ' ∧ Settled Row.completeDepositing f new := by
  refine turned_recoverEntry ?_ ?_ σ
  · exact fun _ _ => nofun
  · exact fun _ _ => ⟨_, rfl, .storedOfframp (fun _ _ => rfl) fun _ _ => rfl⟩

/-- The turn of an offramp that is changed by `g` without a call of the operator. -/
def Mapped (g : OfframpMapping → OfframpMapping) (f : Option Row → Option Row) (new : List Entry) :
    Prop := f = Option.map (Row.onOfframp g) ∧ new = []

variable (tid c) in
theorem turned_resetVerifying (m : OfframpMapping) (σ : Alone) :
    ∃ σ' f new, (resetVerifying m).exec (act tid c) σ = (some (), σ') ∧
      Turned (.offramp m.offrampId) f new σ σ' ∧
      Mapped (OfframpMapping.moved .pendingVerification .awaitingDeposit) f new :=
  ⟨_, _, _, rfl, .storedOfframp (fun _ _ => rfl) fun _ _ => rfl, rfl, rfl⟩

variable (tid c) in
theorem turned_failPaying (m : OfframpMapping) (σ : Alone) :
    ∃ σ' f new, (failPaying m).exec (act tid c) σ = (some (), σ') ∧
      Turned (.offramp m.offrampId) f new σ σ' ∧ Mapped OfframpMapping.crashed f new := by
  have ht : Turned (.offramp m.offrampId)
      (Option.map (Row.onOfframp (OfframpMapping.moved .payingLightning .failed))) [] σ
      (σ.stored tid c (.transitionOfframpStatus m.offrampId .payingLightning .failed)) :=
    .storedOfframp (fun _ _ => rfl) fun _ _ => rfl
  have hwon : (σ.world.db.call
      (.transitionOfframpStatus m.offrampId .payingLightning .failed)).1 = true ↔
      ∃ r, σ.world.offramp m.offrampId = some r ∧ r.status = .payingLightning :=
    SwapDb.transitionOfframpStatus_fst_iff
  unfold failPaying
  rw [exec_db]
  rcases hb : (σ.world.db.call
    (.transitionOfframpStatus m.offrampId .payingLightning .failed)).1 with _ | _
  · -- the row is not in PayingLightning
    refine ⟨_, _, _, rfl, ht.congr ?_, rfl, rfl⟩
    rcases hr : σ.world.offramp m.offrampId with _ | r
    · simp [World.row, hr]
    · have hst : r.status ≠ .payingLightning := fun hst => by
        rw [hwon.2 ⟨r, hr, hst⟩] at hb
        cases hb
      simp [World.row, hr, Row.onOfframp, OfframpMapping.moved, OfframpMapping.crashed, hst]
  · refine ⟨_, _, _, rfl, (ht.trans (.storedOfframp (fun _ _ => rfl) fun _ _ => rfl)).congr ?_,
      rfl, rfl⟩
    obtain ⟨r, hr, hst⟩ := hwon.1 hb
    simp [World.row, hr, Row.onOfframp, OfframpMapping.moved, OfframpMapping.crashed, hst,
      SwapDb.coalesce]

/-! ## The loops -/

/-- What a loop over the rows that satisfy `sel` does to the view of a row. -/
structure Passed (sel : Row → Bool) (P : (Option Row → Option Row) → List Entry → Prop)
    (v v' : View) : Prop where
  apart : v.row.any sel = false → v' = v
  turned : v.row.any sel = true → ∃ f new, v' = ⟨f v.row, new ++ v.calls⟩ ∧ P f new

/-- A loop over a snapshot that `call` has just read: `key` names the rows that satisfy `sel`. -/
theorem passed_forEach {γ : Type} {body : γ → Relay Unit} {key : γ → About} {sel : Row → Bool}
    {P : (Option Row → Option Row) → List Entry → Prop} (call : DbCall) (xs : List γ)
    (hread : (σ.world.db.call call).2 = σ.world.db) (hnd : (xs.map key).Nodup)
    (hkeys : ∀ b, b ∈ xs.map key ↔ (σ.world.row b).any sel = true)
    (hbody : ∀ x (σ : Alone), ∃ σ' f new, (body x).exec (act tid c) σ = (some (), σ') ∧
      Turned (key x) f new σ σ' ∧ P f new) :
    ∃ σ', (Prog.forEach body xs).exec (act tid c) (σ.stored tid c call) = (some (), σ') ∧
      ∀ b, Passed sel P (σ.view b) (σ'.view b) := by
  have hturns : ∀ x ∈ xs, ∀ σ : Alone, ∃ σ', (body x).exec (act tid c) σ = (some (), σ') ∧
      (∀ b, b ≠ key x → σ'.view b = σ.view b) ∧ ∃ f new,
        σ'.view (key x) = ⟨f (σ.view (key x)).row, new ++ (σ.view (key x)).calls⟩ ∧ P f new := by
    intro x _ σ
    obtain ⟨σ', f, new, he, ht, hP⟩ := hbody x σ
    exact ⟨σ', he, ht.others, f, new, ht.self, hP⟩
  obtain ⟨σ', he, hframe, hturn⟩ := Prog.exec_forEach_keyed
    (T := fun _ (v v' : View) => ∃ f new, v' = ⟨f v.row, new ++ v.calls⟩ ∧ P f new) xs hnd hturns
    (σ.stored tid c call)
  have hview : ∀ b, (σ.stored tid c call).view b = σ.view b := fun b => (Turned.read hread).self
  refine ⟨σ', he, fun b => ⟨fun hb => ?_, fun hb => ?_⟩⟩
  · rw [hframe b, hview]
    rw [hkeys]
    exact fun h => Bool.false_ne_true (hb.symm.trans h)
  · obtain ⟨x, hx, rfl⟩ := List.mem_map.1 ((hkeys b).2 hb)
    rw [← hview]
    exact hturn x hx

/-- A loop over the swaps with a status. -/
theorem passed_swaps {body : SwapMapping → Relay Unit}
    {P : (Option Row → Option Row) → List Entry → Prop} (st : SwapStatus)
    (hbody : ∀ m (σ : Alone), ∃ σ' f new, (body m).exec (act tid c) σ = (some (), σ') ∧
      Turned (.swap m.paymentHash) f new σ σ' ∧ P f new) (σ : Alone) :
    ∃ σ', (db (.getByStatus st) >>= Prog.forEach body).exec (act tid c) σ = (some (), σ') ∧
      ∀ b, Passed (Row.isSwap st) P (σ.view b) (σ'.view b) := by
  refine passed_forEach (.getByStatus st) _ rfl ?_ (fun b => ?_) hbody
  · have hnd := (σ.world.db.swaps.select_keyed fun r => r.status = st).map
      (f := About.swap) fun _ _ h => About.swap.inj h
    rw [List.map_map] at hnd
    exact hnd
  · rw [List.mem_map]
    constructor
    · rintro ⟨m, hm, rfl⟩
      obtain ⟨hrow, hst⟩ := SwapDb.mem_getByStatus.1 hm
      have hrow : σ.world.swap m.paymentHash = some m := hrow
      simpa [World.row, hrow, Row.isSwap] using hst
    · intro hb
      cases b with
      | swap h =>
        rcases hrow : σ.world.swap h with _ | m
        · simp [World.row, hrow] at hb
        · obtain rfl : m.paymentHash = h := SwapDb.paymentHash_of_getByPaymentHash hrow
          have hst : m.status = st := by simpa [World.row, hrow, Row.isSwap] using hb
          exact ⟨m, SwapDb.mem_getByStatus.2 ⟨hrow, hst⟩, rfl⟩
      | offramp id =>
        rcases hrow : σ.world.offramp id with _ | m <;> simp [World.row, hrow, Row.isSwap] at hb
      | pool => cases hb

/-- A loop over the offramps with a status. -/
theorem passed_offramps {body : OfframpMapping → Relay Unit}
    {P : (Option Row → Option Row) → List Entry → Prop} (st : OfframpStatus)
    (hbody : ∀ m (σ : Alone), ∃ σ' f new, (body m).exec (act tid c) σ = (some (), σ') ∧
      Turned (.offramp m.offrampId) f new σ σ' ∧ P f new) (σ : Alone) :
    ∃ σ', (db (.getOfframpsByStatus st) >>= Prog.forEach body).exec (act tid c) σ = (some (), σ') ∧
      ∀ b, Passed (Row.isOfframp st) P (σ.view b) (σ'.view b) := by
  refine passed_forEach (.getOfframpsByStatus st) _ rfl ?_ (fun b => ?_) hbody
  · have hnd := (σ.world.db.offramps.select_keyed fun r => r.status = st).map
      (f := About.offramp) fun _ _ h => About.offramp.inj h
    rw [List.map_map] at hnd
    exact hnd
  · rw [List.mem_map]
    constructor
    · rintro ⟨m, hm, rfl⟩
      obtain ⟨hrow, hst⟩ := SwapDb.mem_getOfframpsByStatus.1 hm
      have hrow : σ.world.offramp m.offrampId = some m := hrow
      simpa [World.row, hrow, Row.isOfframp] using hst
    · intro hb
      cases b with
      | swap h =>
        rcases hrow : σ.world.swap h with _ | m <;> simp [World.row, hrow, Row.isOfframp] at hb
      | offramp id =>
        rcases hrow : σ.world.offramp id with _ | m
        · simp [World.row, hrow] at hb
        · obtain rfl : m.offrampId = id := SwapDb.offrampId_of_getOfframpById hrow
          have hst : m.status = st := by simpa [World.row, hrow, Row.isOfframp] using hb
          exact ⟨m, SwapDb.mem_getOfframpsByStatus.2 ⟨hrow, hst⟩, rfl⟩
      | pool => cases hb

/-- The view of a row on its way through the loops of `recover_depositing_offramps`. -/
structure Stages (v v₁ v₂ v' : View) : Prop where
  verifying : Passed (Row.isOfframp .pendingVerification)
    (Mapped (OfframpMapping.moved .pendingVerification .awaitingDeposit)) v v₁
  paying : Passed (Row.isOfframp .payingLightning) (Mapped OfframpMapping.crashed) v₁ v₂
  depositing : Passed (Row.isOfframp .depositingToPool) (Settled Row.completeDepositing) v₂ v'

theorem passed_recoverFulfillingSwaps (tid : ℕ) (c : Call) (σ : Alone) :
    ∃ σ', recoverFulfillingSwaps.exec (act tid c) σ = (some (), σ') ∧
      ∀ b, Passed (Row.isSwap .fulfilling) (Settled Row.completeSwap) (σ.view b) (σ'.view b) :=
  passed_swaps .fulfilling (turned_recoverSwap tid c) σ

theorem stages_recoverDepositingOfframps (tid : ℕ) (c : Call) (σ : Alone) :
    ∃ σ₁ σ₂ σ' : Alone, recoverDepositingOfframps.exec (act tid c) σ = (some (), σ') ∧
      ∀ b, Stages (σ.view b) (σ₁.view b) (σ₂.view b) (σ'.view b) := by
  obtain ⟨σ₁, he₁, hp₁⟩ := passed_offramps .pendingVerification (turned_resetVerifying tid c) σ
  obtain ⟨σ₂, he₂, hp₂⟩ := passed_offramps .payingLightning (turned_failPaying tid c) σ₁
  obtain ⟨σ', he₃, hp₃⟩ := passed_offramps .depositingToPool (turned_recoverDepositing tid c) σ₂
  refine ⟨σ₁, σ₂, σ', ?_, fun b => ⟨hp₁ b, hp₂ b, hp₃ b⟩⟩
  show ((db (.getOfframpsByStatus .pendingVerification) >>= Prog.forEach resetVerifying) >>= fun _ =>
    (db (.getOfframpsByStatus .payingLightning) >>= Prog.forEach failPaying) >>= fun _ =>
      db (.getOfframpsByStatus .depositingToPool) >>= Prog.forEach recoverDepositing).exec _ σ = _
  rw [Prog.exec_bind _ he₁, Prog.exec_bind _ he₂, he₃]

section

variable {v v₁ v₂ v' : View} {x : OfframpMapping}

/-- What is not the row of an offramp stays out of the loops. -/
theorem Stages.unseen (h : Stages v v₁ v₂ v') (hv : ∀ st, v.row.any (Row.isOfframp st) = false) :
    v' = v := by
  obtain rfl := h.verifying.apart (hv _)
  obtain rfl := h.paying.apart (hv _)
  exact h.depositing.apart (hv _)

/-- An offramp that waits for a verification is reset. -/
theorem Stages.of_pendingVerification (h : Stages v v₁ v₂ v') (hx : v.row = some (.offramp x))
    (hst : x.status = .pendingVerification) :
    v' = ⟨some (.offramp { x with status := .awaitingDeposit }), v.calls⟩ := by
  obtain ⟨f, new, hv, rfl, rfl⟩ := h.verifying.turned (by simp [hx, Row.isOfframp, hst])
  have hv : v₁ = ⟨some (.offramp { x with status := .awaitingDeposit }), v.calls⟩ := by
    simpa [hx, Row.onOfframp, OfframpMapping.moved, hst] using hv
  obtain rfl := h.paying.apart (by rw [hv]; rfl)
  exact (h.depositing.apart (by rw [hv]; rfl)).trans hv

/-- An offramp that waits for a payment is failed. -/
theorem Stages.of_payingLightning (h : Stages v v₁ v₂ v') (hx : v.row = some (.offramp x))
    (hst : x.status = .payingLightning) : v' = ⟨some (.offramp x.crashed), v.calls⟩ := by
  obtain rfl := h.verifying.apart (by simp [hx, Row.isOfframp, hst])
  obtain ⟨f, new, hv, rfl, rfl⟩ := h.paying.turned (by simp [hx, Row.isOfframp, hst])
  have hv : v₂ = ⟨some (.offramp x.crashed), v₁.calls⟩ := by simpa [hx, Row.onOfframp] using hv
  refine (h.depositing.apart ?_).trans hv
  simp [hv, Row.isOfframp, OfframpMapping.crashed, hst]

/-- An offramp that waits for its deposit has its turn. -/
theorem Stages.of_depositingToPool (h : Stages v v₁ v₂ v') (hx : v.row = some (.offramp x))
    (hst : x.status = .depositingToPool) :
    ∃ f new, v' = ⟨f v.row, new ++ v.calls⟩ ∧ Settled Row.completeDepositing f new := by
  obtain rfl := h.verifying.apart (by simp [hx, Row.isOfframp, hst])
  obtain rfl := h.paying.apart (by simp [hx, Row.isOfframp, hst])
  exact h.depositing.turned (by simp [hx, Row.isOfframp, hst])

/-- The other offramps stay out of the loops. -/
theorem Stages.of_ne (h : Stages v v₁ v₂ v') (hx : v.row = some (.offramp x))
    (hver : x.status ≠ .pendingVerification) (hpay : x.status ≠ .payingLightning)
    (hdep : x.status ≠ .depositingToPool) : v' = v := by
  obtain rfl := h.verifying.apart (by simp [hx, Row.isOfframp, hver])
  obtain rfl := h.paying.apart (by simp [hx, Row.isOfframp, hpay])
  exact h.depositing.apart (by simp [hx, Row.isOfframp, hdep])

end

/-- A program that runs alone adds to the log. -/
theorem log_exec (tid : ℕ) (c : Call) {α : Type} (p : Relay α) (σ : Alone) :
    ∃ new, (p.exec (act tid c) σ).2.world.log = new ++ σ.world.log := by
  induction p generalizing σ with
  | pure a => exact ⟨[], rfl⟩
  | op o k ih =>
    rw [Prog.exec]
    rcases ho : act tid c o σ with _ | ⟨r, σ₁⟩
    · exact ⟨[], rfl⟩
    · obtain ⟨new, hnew⟩ := ih r σ₁
      have hlog : σ₁.world.log = ⟨tid, c, o, r⟩ :: σ.world.log := by
        unfold act at ho
        split at ho
        next r' w sp hp =>
          obtain ⟨rfl, rfl⟩ := Prod.mk.inj (Option.some.inj ho)
          exact (effect_of_perform hp).log
        next => cases ho
      exact ⟨new ++ [⟨tid, c, o, r⟩], by simp [hnew, hlog]⟩

end Alone

/-! ## The whole recovery -/

/-- What recovery may do to a swap; `failed` says that its transaction could not be built or
submitted. -/
structure SwapRecovered (failed : Prop) (x y : SwapMapping) : Prop where
  apart : x.status ≠ .fulfilling → y = x
  stuck : x.status = .fulfilling → y.status = .fulfilling ∨ y.status = .completed
  failed : failed → y = x
  columns : y = { x with status := y.status, cardanoTxHash := y.cardanoTxHash }

/-- What recovery may do to an offramp. -/
structure OfframpRecovered (failed : Prop) (x y : OfframpMapping) : Prop where
  apart : x.status ≠ .pendingVerification → x.status ≠ .payingLightning →
    x.status ≠ .depositingToPool → y = x
  verifying : x.status = .pendingVerification → y.status = .awaitingDeposit
  paying : x.status = .payingLightning → y.status = .failed
  depositing : x.status = .depositingToPool → y.status = .depositingToPool ∨ y.status = .completed
  failed : failed → y = x
  columns : y = { x with status := y.status, errorMessage := y.errorMessage }

/-- No offramp is left waiting for a verification or a payment. -/
theorem OfframpRecovered.cleared {failed : Prop} {x y : OfframpMapping}
    (h : OfframpRecovered failed x y) :
    y.status ≠ .pendingVerification ∧ y.status ≠ .payingLightning := by
  by_cases hv : x.status = .pendingVerification
  · simp [h.verifying hv]
  by_cases hp : x.status = .payingLightning
  · simp [h.paying hp]
  by_cases hd : x.status = .depositingToPool
  · rcases h.depositing hd with hy | hy <;> simp [hy]
  · rw [h.apart hv hp hd]
    exact ⟨hv, hp⟩

/-- A call about the row `a` that was to build or submit its transaction has failed. -/
def Fails (new : List Entry) (a : About) : Prop := ∃ e ∈ new, e.about? = some a ∧ e.fails = true

namespace Alone

theorem View.eq_of_row {v : View} {r : Option Row} (h : v.row = r) : v = ⟨r, [] ++ v.calls⟩ := by
  rw [← h, List.nil_append]

theorem swapRecovered_of_passed {v v' : View} {x : SwapMapping}
    (h : Passed (Row.isSwap .fulfilling) (Settled Row.completeSwap) v v')
    (hx : v.row = some (.swap x)) :
    ∃ y new, v' = ⟨some (.swap y), new ++ v.calls⟩ ∧
      SwapRecovered (∃ e ∈ new, e.fails = true) x y := by
  by_cases hst : x.status = .fulfilling
  · obtain ⟨f, new, hv, hs⟩ := h.turned (by simp [hx, Row.isSwap, hst])
    rw [hx] at hv
    cases hs with
    | left =>
      exact ⟨x, new, hv, fun hne => absurd hst hne, fun _ => Or.inl hst, fun _ => rfl, rfl⟩
    | done hok =>
      refine ⟨_, new, hv, fun hne => absurd hst hne, fun _ => Or.inr rfl, ?_, rfl⟩
      rintro ⟨e, he, hf⟩
      rw [hok e he] at hf
      cases hf
  · have hv := h.apart (by simp [hx, Row.isSwap, hst])
    exact ⟨x, [], hv.trans (View.eq_of_row hx), fun _ => rfl, fun h => absurd h hst, fun _ => rfl, rfl⟩

theorem offrampRecovered_of_stages {v v₁ v₂ v' : View} {x : OfframpMapping} (h : Stages v v₁ v₂ v')
    (hx : v.row = some (.offramp x)) :
    ∃ y new, v' = ⟨some (.offramp y), new ++ v.calls⟩ ∧
      OfframpRecovered (∃ e ∈ new, e.fails = true) x y := by
  have hnone : ¬ ∃ e ∈ ([] : List Entry), e.fails = true := by simp
  by_cases hver : x.status = .pendingVerification
  · refine ⟨_, [], h.of_pendingVerification hx hver, ?_⟩
    exact ⟨by simp [hver], fun _ => rfl, by simp [hver], by simp [hver], fun h => absurd h hnone, rfl⟩
  by_cases hpay : x.status = .payingLightning
  · refine ⟨_, [], h.of_payingLightning hx hpay, ?_⟩
    simp only [OfframpMapping.crashed, if_pos hpay]
    exact ⟨by simp [hpay], by simp [hpay], fun _ => rfl, by simp [hpay], fun h => absurd h hnone, rfl⟩
  by_cases hdep : x.status = .depositingToPool
  · obtain ⟨f, new, hv, hs⟩ := h.of_depositingToPool hx hdep
    rw [hx] at hv
    cases hs with
    | left =>
      exact ⟨x, new, hv, by simp [hdep], by simp [hdep], by simp [hdep], fun _ => Or.inl hdep,
        fun _ => rfl, rfl⟩
    | done hok =>
      refine ⟨_, new, hv, by simp [hdep], by simp [hdep], by simp [hdep], fun _ => Or.inr rfl, ?_, rfl⟩
      rintro ⟨e, he, hf⟩
      rw [hok e he] at hf
      cases hf
  · exact ⟨x, [], (h.of_ne hx hver hpay hdep).trans (View.eq_of_row hx), fun _ _ _ => rfl,
      fun h => absurd h hver, fun h => absurd h hpay, fun h => absurd h hdep, fun _ => rfl, rfl⟩

/-- The calls about a row that a run has made are those among its entries. -/
theorem calls_of_log {σ σ' : Alone} {new calls : List Entry} {b : About} {r : Option Row}
    (hlog : σ'.world.log = new ++ σ.world.log) (hv : σ'.view b = ⟨r, calls ++ (σ.view b).calls⟩) :
    calls = new.filter fun e => e.about? = some b := by
  have h := congrArg View.calls hv
  simp only [view, hlog, List.filter_append] at h
  exact (List.append_cancel_right h).symm

theorem fails_iff_of_log {σ σ' : Alone} {new calls : List Entry} {b : About} {r : Option Row}
    (hlog : σ'.world.log = new ++ σ.world.log) (hv : σ'.view b = ⟨r, calls ++ (σ.view b).calls⟩) :
    (∃ e ∈ calls, e.fails = true) ↔ Fails new b := by
  simp [calls_of_log hlog hv, Fails, and_assoc]

end Alone

open Alone in
/-- Recovery, run with no other task active, returns.  It changes no row that was not stuck, and the
stuck ones only as their status and the answers of the operator allow; no row is left waiting for a
verification or a payment. -/
theorem recovery_clears_stuck (tid : ℕ) (c : Call) (σ : Alone) :
    ∃ σ' new, (recoverFulfillingSwaps >>= fun _ => recoverDepositingOfframps).exec (act tid c) σ =
      (some (), σ') ∧ σ'.world.log = new ++ σ.world.log ∧
      (∀ h, Option.Rel (SwapRecovered (Fails new (.swap h))) (σ.world.swap h) (σ'.world.swap h)) ∧
      (∀ id, Option.Rel (OfframpRecovered (Fails new (.offramp id))) (σ.world.offramp id)
        (σ'.world.offramp id)) ∧
      ∀ id y, σ'.world.offramp id = some y →
        y.status ≠ .pendingVerification ∧ y.status ≠ .payingLightning := by
  obtain ⟨σ₁, he₁, hpassed⟩ := passed_recoverFulfillingSwaps tid c σ
  obtain ⟨σ₂, σ₃, σ', he₂, hstages⟩ := stages_recoverDepositingOfframps tid c σ₁
  have hexec : (recoverFulfillingSwaps >>= fun _ => recoverDepositingOfframps).exec (act tid c) σ =
      (some (), σ') := by rw [Prog.exec_bind _ he₁, he₂]
  obtain ⟨new, hlog⟩ := log_exec tid c (recoverFulfillingSwaps >>= fun _ => recoverDepositingOfframps) σ
  rw [hexec] at hlog
  -- each of the two recoveries sees the rows of its own table only
  have hswap : ∀ h, σ'.view (.swap h) = σ₁.view (.swap h) := by
    intro h
    refine (hstages (.swap h)).unseen fun st => ?_
    rcases hx : σ₁.world.swap h with _ | x <;> simp [view, World.row, hx, Row.isOfframp]
  have hofframp : ∀ id, σ₁.view (.offramp id) = σ.view (.offramp id) := by
    intro id
    refine (hpassed (.offramp id)).apart ?_
    rcases hx : σ.world.offramp id with _ | x <;> simp [view, World.row, hx, Row.isSwap]
  have hofframps : ∀ id, Option.Rel (OfframpRecovered (Fails new (.offramp id)))
      (σ.world.offramp id) (σ'.world.offramp id) := by
    intro id
    have hs := hstages (.offramp id)
    rw [hofframp] at hs
    rcases hx : σ.world.offramp id with _ | x
    · have hv := congrArg View.row (hs.unseen fun st => by simp [view, World.row, hx])
      rw [show σ'.world.offramp id = none by simpa [view, World.row, hx] using hv]
      exact .none
    · obtain ⟨y, calls, hv, hrec⟩ := offrampRecovered_of_stages (x := x) hs
        (by simp [view, World.row, hx])
      rw [fails_iff_of_log hlog hv] at hrec
      rw [show σ'.world.offramp id = some y by simpa [view, World.row] using congrArg View.row hv]
      exact .some hrec
  refine ⟨σ', new, hexec, hlog, fun h => ?_, hofframps, fun id y hy => ?_⟩
  · have hp := hpassed (.swap h)
    rw [← hswap] at hp
    rcases hx : σ.world.swap h with _ | x
    · have hv := congrArg View.row (hp.apart (by simp [view, World.row, hx]))
      rw [show σ'.world.swap h = none by simpa [view, World.row, hx] using hv]
      exact .none
    · obtain ⟨y, calls, hv, hrec⟩ := swapRecovered_of_passed (x := x) hp
        (by simp [view, World.row, hx])
      rw [fails_iff_of_log hlog hv] at hrec
      rw [show σ'.world.swap h = some y by simpa [view, World.row] using congrArg View.row hv]
      exact .some hrec
  · have hrel := hofframps id
    rcases hx : σ.world.offramp id with _ | x
    · rw [hx, hy] at hrel
      cases hrel
    · rw [hx, hy] at hrel
      cases hrel with
      | some hrec => exact hrec.cleared

end LightningRelay
