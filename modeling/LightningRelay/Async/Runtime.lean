import LightningRelay.Async.Prog

/-!
# Interleaved tasks

A runtime runs any number of tasks over one shared world.  A step is one operation of one task, or
one action of the environment, which may change the world, start a task, drop one, or restart the
process; a restart loses every task and starts the boot task.  The scheduler is free, so `Reach`
ranges over every interleaving.

`Discipline` is the rule by which invariants of all interleavings are proved: a protocol for each
task, what a task knows about the world in each local state (`Owned`), which two local states
exclude each other (`Apart`), and what always holds of the world (`Shared`).  `Sound` lists what
has to be checked for a single operation, and `Sound.holds` is the induction over runs.

A `Duty` is work that must not get lost: `Sound.upholds` shows that while it is owed there is a task
that carries it.
-/

set_option autoImplicit false

namespace Async

/-- A task: the call it was started with, and what is left of its program. -/
structure Task (Op : Type) (Resp : Op → Type) (Call : Type) where
  call : Call
  rest : Prog Op Resp Unit

/-- The outcome of an operation: the task goes on with an answer and may have started another
task, or the whole process goes down. -/
inductive Outcome (ρ World Call : Type) where
  | resume (r : ρ) (world : World) (spawned : Option Call)
  | abort (world : World)

/-- What an action of the environment does to the tasks. -/
inductive Change (Call : Type) where
  | keep
  | spawn (c : Call)
  | drop (tid : ℕ)
  | restart

/-- The programs of the calls, the meaning of the operations and of the environment's actions. -/
structure Runtime (Op : Type) (Resp : Op → Type) (World Call Ans Env : Type) where
  body : Call → Prog Op Resp Unit
  boot : Call
  perform : ℕ → Call → (o : Op) → Ans → World → Outcome (Resp o) World Call
  react : Env → World → (ℕ → Option (Task Op Resp Call)) → Option (World × Change Call)

/-- A state: the world, the tasks by their ids, and the next unused id. -/
structure State (Op : Type) (Resp : Op → Type) (World Call : Type) where
  world : World
  tasks : ℕ → Option (Task Op Resp Call)
  next : ℕ

/-- A step of the scheduler: an operation of a task, with the answer the outside gives to it if it
asks for one, or an action of the environment. -/
inductive Action (Ans Env : Type) where
  | task (tid : ℕ) (a : Ans)
  | env (e : Env)

variable {Op : Type} {Resp : Op → Type} {World Call Ans Env : Type}

/-- Ids are given out in order. -/
def State.Fresh (s : State Op Resp World Call) : Prop := ∀ tid, s.next ≤ tid → s.tasks tid = none

theorem State.Fresh.lt_next {s : State Op Resp World Call} (h : s.Fresh) {tid : ℕ}
    {t : Task Op Resp Call} (ht : s.tasks tid = some t) : tid < s.next := by
  by_contra hge
  rw [h tid (Nat.le_of_not_lt hge)] at ht
  cases ht

/-- Some task whose call meets `p` has not ended. -/
def State.running (s : State Op Resp World Call) (p : Call → Bool) : Bool :=
  (List.range s.next).any fun tid => (s.tasks tid).any fun t => p t.call && !t.rest.ended

theorem State.running_of_task {s : State Op Resp World Call} {p : Call → Bool} {tid : ℕ}
    {t : Task Op Resp Call} (hlt : tid < s.next) (ht : s.tasks tid = some t)
    (hp : p t.call = true) (hrun : t.rest.ended = false) : s.running p = true := by
  refine List.any_eq_true.2 ⟨tid, List.mem_range.2 hlt, ?_⟩
  simp [ht, hp, hrun]

namespace Runtime

variable (R : Runtime Op Resp World Call Ans Env)

/-- The tasks with one more, started on `c`. -/
def spawn (s : State Op Resp World Call) (c : Call) : State Op Resp World Call where
  world := s.world
  tasks := Function.update s.tasks s.next (some ⟨c, R.body c⟩)
  next := s.next + 1

/-- The process restarted over the world `w`: ids are not used again. -/
def restart (s : State Op Resp World Call) (w : World) : State Op Resp World Call :=
  R.spawn ⟨w, fun _ => none, s.next⟩ R.boot

/-- The state of a process started over the world `w`. -/
def initial (w : World) : State Op Resp World Call := R.spawn ⟨w, fun _ => none, 0⟩ R.boot

/-- Start the call that an operation asked for. -/
def spawn? (s : State Op Resp World Call) : Option Call → State Op Resp World Call
  | none => s
  | some c => R.spawn s c

/-- The state after an operation of task `tid` with the given outcome. -/
def settle (s : State Op Resp World Call) (tid : ℕ) (c : Call) {o : Op}
    (k : Resp o → Prog Op Resp Unit) : Outcome (Resp o) World Call → State Op Resp World Call
  | .resume r w sp => R.spawn? ⟨w, Function.update s.tasks tid (some ⟨c, k r⟩), s.next⟩ sp
  | .abort w => R.restart s w

/-- The tasks after an action of the environment. -/
def change (s : State Op Resp World Call) (w : World) : Change Call → State Op Resp World Call
  | .keep => ⟨w, s.tasks, s.next⟩
  | .spawn c => R.spawn ⟨w, s.tasks, s.next⟩ c
  | .drop tid => ⟨w, Function.update s.tasks tid none, s.next⟩
  | .restart => R.restart s w

/-- One step, where it is possible. -/
def step (s : State Op Resp World Call) : Action Ans Env → Option (State Op Resp World Call)
  | .task tid a =>
    match s.tasks tid with
    | some ⟨c, .op o k⟩ => some (R.settle s tid c k (R.perform tid c o a s.world))
    | _ => none
  | .env e =>
    match R.react e s.world s.tasks with
    | some (w, ch) => some (R.change s w ch)
    | none => none

/-- A sequence of steps that all meet the condition `ok`. -/
def run (ok : State Op Resp World Call → Action Ans Env → Bool) (s : State Op Resp World Call) :
    List (Action Ans Env) → Option (State Op Resp World Call)
  | [] => some s
  | a :: as => if ok s a then (R.step s a).bind fun s' => run ok s' as else none

/-- The states reached from `w` by steps that all meet the condition `ok`. -/
inductive Reach (ok : State Op Resp World Call → Action Ans Env → Prop) (w : World) :
    State Op Resp World Call → Prop where
  | init : Reach ok w (R.initial w)
  | step {s s' : State Op Resp World Call} {a : Action Ans Env} :
      Reach ok w s → ok s a → R.step s a = some s' → Reach ok w s'

variable {R} {ok ok' : State Op Resp World Call → Action Ans Env → Prop} {w : World}
  {s s' : State Op Resp World Call}

theorem Reach.mono (h : R.Reach ok w s) (hok : ∀ s a, ok s a → ok' s a) : R.Reach ok' w s := by
  induction h with
  | init => exact .init
  | step _ ha hs ih => exact .step ih (hok _ _ ha) hs

theorem step_task_eq_some {tid : ℕ} {a : Ans} (h : R.step s (.task tid a) = some s') :
    ∃ c o k, s.tasks tid = some ⟨c, .op o k⟩ ∧
      s' = R.settle s tid c k (R.perform tid c o a s.world) := by
  simp only [step] at h
  split at h
  · exact ⟨_, _, _, ‹_›, (Option.some.inj h).symm⟩
  · cases h

theorem step_env_eq_some {e : Env} (h : R.step s (.env e) = some s') :
    ∃ w ch, R.react e s.world s.tasks = some (w, ch) ∧ s' = R.change s w ch := by
  simp only [step] at h
  split at h
  · exact ⟨_, _, ‹_›, (Option.some.inj h).symm⟩
  · cases h

theorem spawn_fresh (h : s.Fresh) (c : Call) : (R.spawn s c).Fresh := by
  intro tid hle
  have hle : s.next + 1 ≤ tid := hle
  simp only [spawn]
  rw [Function.update_of_ne (by omega)]
  exact h tid (by omega)

theorem restart_fresh (s : State Op Resp World Call) (w : World) : (R.restart s w).Fresh :=
  spawn_fresh (fun _ _ => rfl) R.boot

theorem settle_fresh (h : s.Fresh) {tid : ℕ} {c : Call} {o : Op} {k : Resp o → Prog Op Resp Unit}
    (ht : s.tasks tid = some ⟨c, .op o k⟩) (out : Outcome (Resp o) World Call) :
    (R.settle s tid c k out).Fresh := by
  rcases out with ⟨r, w, sp⟩ | w
  · have hset : State.Fresh (⟨w, Function.update s.tasks tid (some ⟨c, k r⟩), s.next⟩ :
        State Op Resp World Call) := by
      intro tid' hle
      have hne : tid' ≠ tid := Nat.ne_of_gt (Nat.lt_of_lt_of_le (h.lt_next ht) hle)
      exact (Function.update_of_ne hne ..).trans (h tid' hle)
    cases sp with
    | none => exact hset
    | some c' => exact spawn_fresh hset c'
  · exact restart_fresh s w

theorem change_fresh (h : s.Fresh) (w : World) (ch : Change Call) : (R.change s w ch).Fresh := by
  have hw : State.Fresh (⟨w, s.tasks, s.next⟩ : State Op Resp World Call) := h
  cases ch with
  | keep => exact hw
  | spawn c => exact spawn_fresh hw c
  | drop tid' =>
    intro tid hle
    by_cases e : tid = tid'
    · exact e ▸ Function.update_self ..
    · exact (Function.update_of_ne e ..).trans (h tid hle)
  | restart => exact restart_fresh s w

theorem Reach.fresh (h : R.Reach ok w s) : s.Fresh := by
  induction h with
  | init => exact restart_fresh ⟨w, fun _ => none, 0⟩ w
  | @step s s' act _ _ hs ih =>
    cases act with
    | task tid a =>
      obtain ⟨c, o, k, ht, rfl⟩ := step_task_eq_some hs
      exact settle_fresh ih ht _
    | env e =>
      obtain ⟨w', ch, -, rfl⟩ := step_env_eq_some hs
      exact change_fresh ih w' ch

/-- What tasks leave in the world carries ids that were given out. -/
theorem Reach.lt_next (Left : World → ℕ → Prop) (hinit : ∀ tid, ¬ Left w tid)
    (hmove : ∀ {tid c o a r w w' sp i}, R.perform tid c o a w = .resume r w' sp → Left w' i →
      i = tid ∨ Left w i)
    (habort : ∀ {tid c o a w w' i}, R.perform tid c o a w = .abort w' → Left w' i → Left w i)
    (hreact : ∀ {e w tasks w' ch i}, R.react e w tasks = some (w', ch) → Left w' i → Left w i)
    (h : R.Reach ok w s) {tid : ℕ} (hl : Left s.world tid) : tid < s.next := by
  induction h generalizing tid with
  | init => exact absurd hl (hinit tid)
  | @step s s' act hr _ hs ih =>
    cases act with
    | task i a =>
      obtain ⟨c, o, k, ht, rfl⟩ := step_task_eq_some hs
      rcases hp : R.perform i c o a s.world with ⟨r, w', sp⟩ | w'
      · have hlt : Left w' tid → tid < s.next := by
          intro hw
          rcases hmove hp hw with rfl | hw
          · exact hr.fresh.lt_next ht
          · exact ih hw
        rw [hp] at hl
        cases sp with
        | none => exact hlt hl
        | some c' => exact Nat.lt_succ_of_lt (hlt hl)
      · rw [hp] at hl
        exact Nat.lt_succ_of_lt (ih (habort hp hl))
    | env e =>
      obtain ⟨w', ch, he, rfl⟩ := step_env_eq_some hs
      cases ch with
      | keep | drop => exact ih (hreact he hl)
      | spawn | restart => exact Nat.lt_succ_of_lt (ih (hreact he hl))

/-- What tasks leave open in the world belongs to tasks that are there: no task is lost while it has
something open, and nobody opens anything for another task. -/
theorem Reach.present (Open : World → ℕ → Prop) (hinit : ∀ tid, ¬ Open w tid)
    (hmove : ∀ {s tid c o k a r w' sp tid'}, R.Reach ok w s → ok s (.task tid a) →
      s.tasks tid = some ⟨c, .op o k⟩ → R.perform tid c o a s.world = .resume r w' sp →
      Open w' tid' → tid' = tid ∨ Open s.world tid')
    (habort : ∀ {s tid c o k a w' tid'}, R.Reach ok w s →
      (∀ i, Open s.world i → ∃ t, s.tasks i = some t) → ok s (.task tid a) →
      s.tasks tid = some ⟨c, .op o k⟩ → R.perform tid c o a s.world = .abort w' → ¬ Open w' tid')
    (hreact : ∀ {s e w' ch tid'}, R.Reach ok w s →
      (∀ i, Open s.world i → ∃ t, s.tasks i = some t) → ok s (.env e) →
      R.react e s.world s.tasks = some (w', ch) → Open w' tid' →
      Open s.world tid' ∧ ch ≠ .drop tid' ∧ ch ≠ .restart)
    (h : R.Reach ok w s) {tid : ℕ} (ho : Open s.world tid) : ∃ t, s.tasks tid = some t := by
  induction h generalizing tid with
  | init => exact absurd ho (hinit tid)
  | @step s s' act hr hok hs ih =>
    -- a task that is started or that has moved is there
    have hupdate : ∀ {tasks : ℕ → Option (Task Op Resp Call)} {i : ℕ} {t : Task Op Resp Call},
        (tid = i ∨ ∃ t, tasks tid = some t) → ∃ t', Function.update tasks i (some t) tid = some t' := by
      intro tasks i t hcase
      by_cases hi : tid = i
      · exact ⟨t, hi ▸ Function.update_self ..⟩
      · rw [Function.update_of_ne hi]
        exact hcase.resolve_left hi
    cases act with
    | task i a =>
      obtain ⟨c, o, k, ht, rfl⟩ := step_task_eq_some hs
      rcases hp : R.perform i c o a s.world with ⟨r, w', sp⟩ | w'
      · have hw : Open w' tid := by
          rw [hp] at ho
          cases sp <;> exact ho
        have hold := hupdate (t := ⟨c, k r⟩) ((hmove hr hok ht hp hw).imp_right ih)
        cases sp with
        | none => exact hold
        | some c' => exact hupdate (Or.inr hold)
      · rw [hp] at ho
        exact absurd ho (habort hr (fun _ => ih) hok ht hp)
    | env e =>
      obtain ⟨w', ch, he, rfl⟩ := step_env_eq_some hs
      have hw : Open w' tid := by
        cases ch <;> exact ho
      obtain ⟨hopen, hdrop, hrestart⟩ := hreact hr (fun _ => ih) hok he hw
      cases ch with
      | keep => exact ih hopen
      | spawn c => exact hupdate (Or.inr (ih hopen))
      | drop i =>
        have hne : tid ≠ i := fun hi => hdrop (hi ▸ rfl)
        obtain ⟨t, ht⟩ := ih hopen
        exact ⟨t, (Function.update_of_ne hne ..).trans ht⟩
      | restart => exact absurd rfl hrestart

theorem Reach.trans_run {chk : State Op Resp World Call → Action Ans Env → Bool}
    (h : R.Reach (fun s a => chk s a = true) w s) {as : List (Action Ans Env)}
    (hr : R.run chk s as = some s') : R.Reach (fun s a => chk s a = true) w s' := by
  induction as generalizing s with
  | nil =>
    obtain rfl := Option.some.inj hr
    exact h
  | cons a as ih =>
    simp only [run] at hr
    split_ifs at hr with ha
    obtain ⟨s₁, h₁, hr⟩ := Option.bind_eq_some_iff.1 hr
    exact ih (.step h ha h₁) hr

/-- Every run is one of the interleavings that `Reach` ranges over. -/
theorem reach_of_run {chk : State Op Resp World Call → Action Ans Env → Bool}
    {as : List (Action Ans Env)} (hr : R.run chk (R.initial w) as = some s') :
    R.Reach (fun s a => chk s a = true) w s' :=
  Reach.trans_run .init hr

/-- What is seen at the end of a run holds of a state that is reached. -/
theorem exists_reach_of_run {chk : State Op Resp World Call → Action Ans Env → Bool}
    {as : List (Action Ans Env)} {p : State Op Resp World Call → Bool}
    (h : (R.run chk (R.initial w) as).any p = true) :
    ∃ s, R.Reach (fun s a => chk s a = true) w s ∧ p s = true := by
  obtain ⟨s, hs, hp⟩ := (Option.any_eq_true _ _).1 h
  exact ⟨s, reach_of_run hs, hp⟩

end Runtime

/-! ## Invariants of all interleavings -/

/-- Protocols for the tasks of a runtime, with what a task in a local state knows about the world,
which local states exclude each other, and what always holds of the world. -/
structure Discipline (Op : Type) (Resp : Op → Type) (World Call τ : Type) where
  start : Call → τ
  Move : Call → τ → (o : Op) → Resp o → τ → Prop
  Final : Call → τ → Prop
  Shared : World → Prop
  Owned : World → ℕ → Call → τ → Prop
  Apart : Call → τ → Call → τ → Prop

namespace Discipline

variable {τ : Type} (D : Discipline Op Resp World Call τ)

/-- The task keeps to its protocol from the local state `l`. -/
def Keeps (t : Task Op Resp Call) (l : τ) : Prop :=
  Follows (D.Move t.call) (fun _ => D.Final t.call) t.rest l

/-- The discipline holds in `s`, with `L` the local states of the tasks. -/
structure Holds (s : State Op Resp World Call) (L : ℕ → τ) : Prop where
  shared : D.Shared s.world
  keeps : ∀ {tid t}, s.tasks tid = some t → D.Keeps t (L tid)
  owned : ∀ {tid t}, s.tasks tid = some t → D.Owned s.world tid t.call (L tid)
  apart : ∀ {tid tid' t t'}, tid ≠ tid' → s.tasks tid = some t → s.tasks tid' = some t' →
    D.Apart t.call (L tid) t'.call (L tid')

variable (R : Runtime Op Resp World Call Ans Env)
  (ok : State Op Resp World Call → Action Ans Env → Prop) (w₀ : World)

/-- A step about to be made, in a state that a run reaches. -/
structure Next (s : State Op Resp World Call) (act : Action Ans Env) : Prop where
  reach : R.Reach ok w₀ s
  ok : ok s act
  shared : D.Shared s.world

/-- An operation of a task about to be performed. -/
structure Turn (s : State Op Resp World Call) (tid : ℕ) (c : Call) (o : Op) (a : Ans) (l : τ) :
    Prop extends D.Next R ok w₀ s (.task tid a) where
  task : ∃ k, s.tasks tid = some ⟨c, .op o k⟩
  owned : D.Owned s.world tid c l

/-- Facts that every single step keeps, in states where the discipline holds: facts `S` of the
world, facts `O` that a task owns, and facts `A` of two tasks.  An operation gives the task what its
next local state claims and takes nothing from the other tasks, and neither does the
environment. -/
structure Kept (S : World → Prop) (O : World → ℕ → Call → τ → Prop)
    (A : Call → τ → Call → τ → Prop) : Prop where
  symm : ∀ {c l c' l'}, A c l c' l' → A c' l' c l
  init : S w₀ ∧ O w₀ 0 R.boot (D.start R.boot)
  move : ∀ {s tid c o a l r w sp l'}, D.Turn R ok w₀ s tid c o a l →
    R.perform tid c o a s.world = .resume r w sp → D.Move c l o r l' → S w ∧ O w tid c l'
  others : ∀ {s tid c o a l r w sp l' tid' t m}, D.Turn R ok w₀ s tid c o a l →
    R.perform tid c o a s.world = .resume r w sp → D.Move c l o r l' →
    tid' ≠ tid → s.tasks tid' = some t → D.Keeps t m → D.Owned s.world tid' t.call m →
    D.Apart c l t.call m → O w tid' t.call m ∧ A c l' t.call m
  spawned : ∀ {s tid c o a l r w c' l'}, D.Turn R ok w₀ s tid c o a l →
    R.perform tid c o a s.world = .resume r w (some c') → D.Move c l o r l' →
    O w s.next c' (D.start c') ∧ A c l' c' (D.start c') ∧
    ∀ {tid' t m}, tid' ≠ tid → s.tasks tid' = some t → D.Keeps t m →
      D.Owned s.world tid' t.call m → D.Apart c l t.call m → A t.call m c' (D.start c')
  abort : ∀ {s tid c o a l w}, D.Turn R ok w₀ s tid c o a l →
    R.perform tid c o a s.world = .abort w → S w ∧ O w s.next R.boot (D.start R.boot)
  react : ∀ {s e w ch}, D.Next R ok w₀ s (.env e) →
    R.react e s.world s.tasks = some (w, ch) → S w
  reactOthers : ∀ {s e w ch tid t m}, D.Next R ok w₀ s (.env e) →
    R.react e s.world s.tasks = some (w, ch) → ch ≠ .restart → s.tasks tid = some t →
    D.Keeps t m → D.Owned s.world tid t.call m → O w tid t.call m
  reactSpawn : ∀ {s e w c}, D.Next R ok w₀ s (.env e) →
    R.react e s.world s.tasks = some (w, .spawn c) →
    O w s.next c (D.start c) ∧
    ∀ {tid t m}, s.tasks tid = some t → D.Keeps t m → D.Owned s.world tid t.call m →
      A t.call m c (D.start c)
  reactRestart : ∀ {s e w}, D.Next R ok w₀ s (.env e) →
    R.react e s.world s.tasks = some (w, .restart) → O w s.next R.boot (D.start R.boot)

/-- What has to be checked of a discipline: every program keeps to its protocol, and every step
keeps the discipline's own facts. -/
structure Sound : Prop extends D.Kept R ok w₀ D.Shared D.Owned D.Apart where
  body : ∀ c, Follows (D.Move c) (fun _ => D.Final c) (R.body c) (D.start c)

variable {D R ok w₀} {s : State Op Resp World Call} {L : ℕ → τ}

theorem update_eq_some {f : ℕ → Option (Task Op Resp Call)} {tid tid' : ℕ} {t t' : Task Op Resp Call}
    (h : Function.update f tid (some t') tid' = some t) :
    (tid' = tid ∧ t = t') ∨ (tid' ≠ tid ∧ f tid' = some t) := by
  by_cases e : tid' = tid
  · subst e
    rw [Function.update_self, Option.some.injEq] at h
    exact Or.inl ⟨rfl, h.symm⟩
  · rw [Function.update_of_ne e] at h
    exact Or.inr ⟨e, h⟩

/-- A new task in its first local state. -/
theorem Holds.spawn (hS : D.Sound R ok w₀) (h : D.Holds s L) (hf : s.Fresh) {c : Call}
    (hc : D.Owned s.world s.next c (D.start c))
    (hap : ∀ tid t, s.tasks tid = some t → D.Apart t.call (L tid) c (D.start c)) :
    D.Holds (R.spawn s c) (Function.update L s.next (D.start c)) := by
  have hlt : ∀ {tid t}, s.tasks tid = some t → tid ≠ s.next := fun ht =>
    Nat.ne_of_lt (hf.lt_next ht)
  have hcase : ∀ {tid t}, (R.spawn s c).tasks tid = some t →
      (tid = s.next ∧ t = ⟨c, R.body c⟩) ∨ s.tasks tid = some t := fun ht =>
    (update_eq_some ht).imp_right And.right
  refine ⟨h.shared, ?_, ?_, ?_⟩
  · intro tid t ht
    rcases hcase ht with ⟨rfl, rfl⟩ | ht
    · rw [Function.update_self]
      exact hS.body c
    · rw [Function.update_of_ne (hlt ht)]
      exact h.keeps ht
  · intro tid t ht
    rcases hcase ht with ⟨rfl, rfl⟩ | ht
    · rw [Function.update_self]
      exact hc
    · rw [Function.update_of_ne (hlt ht)]
      exact h.owned ht
  · intro tid tid' t t' hne ht ht'
    rcases hcase ht with ⟨rfl, rfl⟩ | ht <;> rcases hcase ht' with ⟨rfl, rfl⟩ | ht'
    · exact absurd rfl hne
    · rw [Function.update_self, Function.update_of_ne (hlt ht')]
      exact hS.symm (hap _ _ ht')
    · rw [Function.update_self, Function.update_of_ne (hlt ht)]
      exact hap _ _ ht
    · rw [Function.update_of_ne (hlt ht), Function.update_of_ne (hlt ht')]
      exact h.apart hne ht ht'

/-- A process with the boot task alone. -/
theorem Holds.restart (hS : D.Sound R ok w₀) {w : World} (hw : D.Shared w)
    (hb : D.Owned w s.next R.boot (D.start R.boot)) :
    D.Holds (R.restart s w) fun _ => D.start R.boot := by
  have h : D.Holds (⟨w, fun _ => none, s.next⟩ : State Op Resp World Call)
      (fun _ => D.start R.boot) :=
    ⟨hw, fun ht => by simp at ht, fun ht => by simp at ht, fun _ ht => by simp at ht⟩
  have hspawn := h.spawn hS (fun _ _ => rfl) hb fun _ _ ht => by simp at ht
  rwa [Function.update_eq_self_iff.2 rfl] at hspawn

variable (D) in
/-- The local states after an operation of task `tid` that leaves it in `l'`. -/
def advance (s : State Op Resp World Call) (L : ℕ → τ) (tid : ℕ) (l' : τ) : Option Call → ℕ → τ
  | none => Function.update L tid l'
  | some c => Function.update (Function.update L tid l') s.next (D.start c)

variable (D) in
/-- The local states after an action of the environment that restarts nothing. -/
def adapt (s : State Op Resp World Call) (L : ℕ → τ) : Change Call → ℕ → τ
  | .spawn c => Function.update L s.next (D.start c)
  | _ => L

/-- One operation of a task. -/
theorem Holds.resume (hS : D.Sound R ok w₀) (h : D.Holds s L) (hr : R.Reach ok w₀ s) {tid : ℕ}
    {c : Call} {o : Op} {k : Resp o → Prog Op Resp Unit} {a : Ans} (hok : ok s (.task tid a))
    (ht : s.tasks tid = some ⟨c, .op o k⟩) {r : Resp o} {w : World} {sp : Option Call}
    (hp : R.perform tid c o a s.world = .resume r w sp) :
    ∃ l', D.Move c (L tid) o r l' ∧
      D.Holds (R.settle s tid c k (.resume r w sp)) (D.advance s L tid l' sp) := by
  have turn : D.Turn R ok w₀ s tid c o a (L tid) :=
    ⟨⟨hr, hok, h.shared⟩, ⟨k, ht⟩, h.owned ht⟩
  obtain ⟨l', hm, hk⟩ := (h.keeps ht).move r
  refine ⟨l', hm, ?_⟩
  obtain ⟨hw, ho⟩ := hS.move turn hp hm
  have hoth : ∀ {tid' t}, tid' ≠ tid → s.tasks tid' = some t →
      D.Owned w tid' t.call (L tid') ∧ D.Apart c l' t.call (L tid') := fun hne ht' =>
    hS.others turn hp hm hne ht' (h.keeps ht') (h.owned ht') (h.apart hne.symm ht ht')
  have h' : D.Holds ⟨w, Function.update s.tasks tid (some ⟨c, k r⟩), s.next⟩
      (Function.update L tid l') := by
    refine ⟨hw, ?_, ?_, ?_⟩
    · intro tid' t ht'
      rcases update_eq_some ht' with ⟨rfl, rfl⟩ | ⟨hne, ht'⟩
      · rw [Function.update_self]
        exact hk
      · rw [Function.update_of_ne hne]
        exact h.keeps ht'
    · intro tid' t ht'
      rcases update_eq_some ht' with ⟨rfl, rfl⟩ | ⟨hne, ht'⟩
      · rw [Function.update_self]
        exact ho
      · rw [Function.update_of_ne hne]
        exact (hoth hne ht').1
    · intro tid₁ tid₂ t₁ t₂ hne h₁ h₂
      rcases update_eq_some h₁ with ⟨rfl, rfl⟩ | ⟨hne₁, ht₁⟩ <;>
        rcases update_eq_some h₂ with ⟨rfl, rfl⟩ | ⟨hne₂, ht₂⟩
      · exact absurd rfl hne
      · rw [Function.update_self, Function.update_of_ne hne₂]
        exact (hoth hne₂ ht₂).2
      · rw [Function.update_self, Function.update_of_ne hne₁]
        exact hS.symm (hoth hne₁ ht₁).2
      · rw [Function.update_of_ne hne₁, Function.update_of_ne hne₂]
        exact h.apart hne ht₁ ht₂
  cases sp with
  | none => exact h'
  | some c' =>
    obtain ⟨hc, hself, hap⟩ := hS.spawned turn hp hm
    refine h'.spawn hS (Runtime.settle_fresh (R := R) hr.fresh ht (.resume r w none)) hc fun tid' t ht' => ?_
    rcases update_eq_some ht' with ⟨rfl, rfl⟩ | ⟨hne, ht'⟩
    · rw [Function.update_self]
      exact hself
    · rw [Function.update_of_ne hne]
      exact hap hne ht' (h.keeps ht') (h.owned ht') (h.apart hne.symm ht ht')

/-- An operation that takes the process down. -/
theorem Holds.abort (hS : D.Sound R ok w₀) (h : D.Holds s L) (hr : R.Reach ok w₀ s) {tid : ℕ}
    {c : Call} {o : Op} {k : Resp o → Prog Op Resp Unit} {a : Ans} (hok : ok s (.task tid a))
    (ht : s.tasks tid = some ⟨c, .op o k⟩) {w : World}
    (hp : R.perform tid c o a s.world = .abort w) :
    D.Holds (R.restart s w) fun _ => D.start R.boot := by
  obtain ⟨hw, hb⟩ := hS.abort ⟨⟨hr, hok, h.shared⟩, ⟨k, ht⟩, h.owned ht⟩ hp
  exact Holds.restart hS hw hb

/-- One action of the environment, without a restart. -/
theorem Holds.change (hS : D.Sound R ok w₀) (h : D.Holds s L) (hr : R.Reach ok w₀ s) {e : Env}
    (hok : ok s (.env e)) {w : World} {ch : Change Call}
    (he : R.react e s.world s.tasks = some (w, ch)) (hch : ch ≠ .restart) :
    D.Holds (R.change s w ch) (D.adapt s L ch) := by
  have next : D.Next R ok w₀ s (.env e) := ⟨hr, hok, h.shared⟩
  have hkeep : D.Holds ⟨w, s.tasks, s.next⟩ L :=
    ⟨hS.react next he, h.keeps, fun ht => hS.reactOthers next he hch ht (h.keeps ht) (h.owned ht),
      h.apart⟩
  cases ch with
  | keep => exact hkeep
  | spawn c =>
    obtain ⟨hc, hap⟩ := hS.reactSpawn next he
    exact hkeep.spawn hS hr.fresh hc fun _ _ ht => hap ht (h.keeps ht) (h.owned ht)
  | drop tid =>
    have hsub : ∀ {tid' t}, Function.update s.tasks tid none tid' = some t →
        s.tasks tid' = some t := by
      intro tid' t ht
      by_cases e : tid' = tid
      · rw [e, Function.update_self] at ht
        cases ht
      · rwa [Function.update_of_ne e] at ht
    exact ⟨hkeep.shared, fun ht => hkeep.keeps (hsub ht), fun ht => hkeep.owned (hsub ht),
      fun hne h₁ h₂ => hkeep.apart hne (hsub h₁) (hsub h₂)⟩
  | restart => exact absurd rfl hch

/-- A sound discipline holds in every state that a run reaches, with whatever every step keeps of the
state and the local states. -/
theorem Sound.induct (hS : D.Sound R ok w₀) {J : State Op Resp World Call → (ℕ → τ) → Prop}
    (init : J (R.initial w₀) fun _ => D.start R.boot)
    (resume : ∀ {s L tid c o k a r w sp l'}, R.Reach ok w₀ s → D.Holds s L → J s L →
      ok s (.task tid a) → s.tasks tid = some ⟨c, .op o k⟩ →
      R.perform tid c o a s.world = .resume r w sp → D.Move c (L tid) o r l' →
      J (R.settle s tid c k (.resume r w sp)) (D.advance s L tid l' sp))
    (abort : ∀ {s L tid c o k a w}, R.Reach ok w₀ s → D.Holds s L → J s L → ok s (.task tid a) →
      s.tasks tid = some ⟨c, .op o k⟩ → R.perform tid c o a s.world = .abort w →
      J (R.restart s w) fun _ => D.start R.boot)
    (change : ∀ {s L e w ch}, R.Reach ok w₀ s → D.Holds s L → J s L → ok s (.env e) →
      R.react e s.world s.tasks = some (w, ch) → ch ≠ .restart → J (R.change s w ch) (D.adapt s L ch))
    (restart : ∀ {s L e w}, R.Reach ok w₀ s → D.Holds s L → J s L → ok s (.env e) →
      R.react e s.world s.tasks = some (w, .restart) → J (R.restart s w) fun _ => D.start R.boot)
    (hr : R.Reach ok w₀ s) : ∃ L, D.Holds s L ∧ J s L := by
  induction hr with
  | init =>
    exact ⟨_, Holds.restart (s := ⟨w₀, fun _ => none, 0⟩) hS hS.init.1 hS.init.2, init⟩
  | @step s s' act hr hok hs ih =>
    obtain ⟨L, hL, hJ⟩ := ih
    cases act with
    | task tid a =>
      obtain ⟨c, o, k, ht, rfl⟩ := Runtime.step_task_eq_some hs
      rcases hp : R.perform tid c o a s.world with ⟨r, w, sp⟩ | w
      · obtain ⟨l', hm, hL'⟩ := hL.resume hS hr hok ht hp
        exact ⟨_, hL', resume hr hL hJ hok ht hp hm⟩
      · exact ⟨_, hL.abort hS hr hok ht hp, abort hr hL hJ hok ht hp⟩
    | env e =>
      obtain ⟨w, ch, he, rfl⟩ := Runtime.step_env_eq_some hs
      by_cases hch : ch = .restart
      · subst hch
        have next : D.Next R ok w₀ s (.env e) := ⟨hr, hok, hL.shared⟩
        exact ⟨_, Holds.restart hS (hS.react next he) (hS.reactRestart next he),
          restart hr hL hJ hok he⟩
      · exact ⟨_, hL.change hS hr hok he hch, change hr hL hJ hok he hch⟩

theorem Sound.holds (hS : D.Sound R ok w₀) (hr : R.Reach ok w₀ s) : ∃ L, D.Holds s L := by
  obtain ⟨L, hL, -⟩ := hS.induct (J := fun _ _ => True) trivial (fun _ _ _ _ _ _ _ => trivial)
    (fun _ _ _ _ _ _ => trivial) (fun _ _ _ _ _ _ => trivial) (fun _ _ _ _ _ => trivial) hr
  exact ⟨L, hL⟩

/-! ### Work that is under way -/

/-- Work that the world may be owed, and the local states of the tasks that are about to do it. -/
structure Duty (World Call τ κ : Type) where
  Owed : World → κ → Prop
  Carries : Call → τ → κ → Prop

section Duty

variable {κ : Type}

/-- All work that is owed has a task that carries it. -/
def Duty.Carried (U : Duty World Call τ κ) (s : State Op Resp World Call) (L : ℕ → τ) : Prop :=
  ∀ x, U.Owed s.world x → ∃ tid t, s.tasks tid = some t ∧ U.Carries t.call (L tid) x

variable (D R ok w₀) in
/-- What has to be checked of a duty: a task that carries work goes on with it, hands it to the task
that it starts, or does it; and no task is lost while work is owed that it carries. -/
structure Upheld (U : Duty World Call τ κ) : Prop where
  init : ∀ x, ¬ U.Owed w₀ x
  move : ∀ {s tid c o a l r w sp l' x}, D.Turn R ok w₀ s tid c o a l →
    R.perform tid c o a s.world = .resume r w sp → D.Move c l o r l' → U.Owed w x →
    U.Carries c l' x ∨ (∃ c', sp = some c' ∧ U.Carries c' (D.start c') x) ∨
      U.Owed s.world x ∧ ¬ U.Carries c l x
  abort : ∀ {s tid c o a l w x}, D.Turn R ok w₀ s tid c o a l →
    R.perform tid c o a s.world = .abort w → ¬ U.Owed w x
  react : ∀ {s e w ch x}, D.Next R ok w₀ s (.env e) →
    R.react e s.world s.tasks = some (w, ch) → ch ≠ .restart → U.Owed w x →
    U.Owed s.world x ∨ ∃ c, ch = .spawn c ∧ U.Carries c (D.start c) x
  drop : ∀ {s e w tid t m x}, D.Next R ok w₀ s (.env e) →
    R.react e s.world s.tasks = some (w, .drop tid) → s.tasks tid = some t → D.Keeps t m →
    D.Owned s.world tid t.call m → U.Owed w x → ¬ U.Carries t.call m x
  restart : ∀ {s e w x}, D.Next R ok w₀ s (.env e) →
    R.react e s.world s.tasks = some (w, .restart) → ¬ U.Owed w x

variable {U : Duty World Call τ κ}

theorem Duty.Carried.resume (hU : D.Upheld R ok w₀ U) (h : D.Holds s L) (hC : U.Carried s L)
    (hr : R.Reach ok w₀ s) {tid : ℕ} {c : Call} {o : Op} {k : Resp o → Prog Op Resp Unit} {a : Ans}
    (hok : ok s (.task tid a)) (ht : s.tasks tid = some ⟨c, .op o k⟩) {r : Resp o} {w : World}
    {sp : Option Call} (hp : R.perform tid c o a s.world = .resume r w sp) {l' : τ}
    (hm : D.Move c (L tid) o r l') :
    U.Carried (R.settle s tid c k (.resume r w sp)) (D.advance s L tid l' sp) := by
  intro x hx
  have turn : D.Turn R ok w₀ s tid c o a (L tid) :=
    ⟨⟨hr, hok, h.shared⟩, ⟨k, ht⟩, h.owned ht⟩
  have hx : U.Owed w x := by
    cases sp <;> exact hx
  -- the task under an old id, after the operation and before a task is started
  have hold : ∀ {tid' t}, Function.update s.tasks tid (some ⟨c, k r⟩) tid' = some t →
      U.Carries t.call (Function.update L tid l' tid') x →
      ∃ tid' t, (R.settle s tid c k (.resume r w sp)).tasks tid' = some t ∧
        U.Carries t.call (D.advance s L tid l' sp tid') x := by
    intro tid' t ht' hc
    cases sp with
    | none => exact ⟨tid', t, ht', hc⟩
    | some c' =>
      have hne : tid' ≠ s.next := by
        rcases update_eq_some ht' with ⟨rfl, -⟩ | ⟨-, ht'⟩
        · exact Nat.ne_of_lt (hr.fresh.lt_next ht)
        · exact Nat.ne_of_lt (hr.fresh.lt_next ht')
      refine ⟨tid', t, ?_, ?_⟩
      · exact (Function.update_of_ne hne ..).trans ht'
      · rw [advance, Function.update_of_ne hne]
        exact hc
  rcases hU.move turn hp hm hx with hc | ⟨c', rfl, hc⟩ | ⟨hx₀, hnot⟩
  · exact hold (Function.update_self ..) (by rw [Function.update_self]; exact hc)
  · refine ⟨s.next, ⟨c', R.body c'⟩, Function.update_self .., ?_⟩
    rw [advance, Function.update_self]
    exact hc
  · obtain ⟨tid', t, ht', hc⟩ := hC x hx₀
    have hne : tid' ≠ tid := by
      rintro rfl
      rw [ht] at ht'
      obtain rfl := Option.some.inj ht'
      exact hnot hc
    refine hold ((Function.update_of_ne hne ..).trans ht') ?_
    rw [Function.update_of_ne hne]
    exact hc

theorem Duty.Carried.change (hU : D.Upheld R ok w₀ U) (h : D.Holds s L) (hC : U.Carried s L)
    (hr : R.Reach ok w₀ s) {e : Env} (hok : ok s (.env e)) {w : World} {ch : Change Call}
    (he : R.react e s.world s.tasks = some (w, ch)) (hch : ch ≠ .restart) :
    U.Carried (R.change s w ch) (D.adapt s L ch) := by
  intro x hx
  have next : D.Next R ok w₀ s (.env e) := ⟨hr, hok, h.shared⟩
  have hx : U.Owed w x := by
    cases ch with
    | restart => exact absurd rfl hch
    | _ => exact hx
  rcases hU.react next he hch hx with hx₀ | ⟨c, rfl, hc⟩
  · obtain ⟨tid, t, ht, hc⟩ := hC x hx₀
    cases ch with
    | keep => exact ⟨tid, t, ht, hc⟩
    | spawn c =>
      have hne : tid ≠ s.next := Nat.ne_of_lt (hr.fresh.lt_next ht)
      refine ⟨tid, t, (Function.update_of_ne hne ..).trans ht, ?_⟩
      rw [adapt, Function.update_of_ne hne]
      exact hc
    | drop tid' =>
      have hne : tid ≠ tid' := by
        rintro rfl
        exact hU.drop next he ht (h.keeps ht) (h.owned ht) hx hc
      exact ⟨tid, t, (Function.update_of_ne hne ..).trans ht, hc⟩
    | restart => exact absurd rfl hch
  · refine ⟨s.next, ⟨c, R.body c⟩, Function.update_self .., ?_⟩
    rw [adapt, Function.update_self]
    exact hc

/-- In every state that a run reaches, all work that is owed is carried by a task. -/
theorem Sound.upholds (hS : D.Sound R ok w₀) (hU : D.Upheld R ok w₀ U) (hr : R.Reach ok w₀ s) :
    ∃ L, D.Holds s L ∧ U.Carried s L :=
  hS.induct (fun x hx => absurd hx (hU.init x))
    (fun hr hL hC hok ht hp hm => hC.resume hU hL hr hok ht hp hm)
    (fun hr hL _ hok ht hp _ hx =>
      absurd hx (hU.abort ⟨⟨hr, hok, hL.shared⟩, ⟨_, ht⟩, hL.owned ht⟩ hp))
    (fun hr hL hC hok he hch => hC.change hU hL hr hok he hch)
    (fun hr hL _ hok he _ hx => absurd hx (hU.restart ⟨hr, hok, hL.shared⟩ he)) hr

end Duty

/-! ### Stronger conditions, more facts -/

section Mono

variable {ok₀ : State Op Resp World Call → Action Ans Env → Prop}

theorem Next.mono {act : Action Ans Env} (h : D.Next R ok w₀ s act)
    (hok : ∀ s a, ok s a → ok₀ s a) : D.Next R ok₀ w₀ s act :=
  ⟨h.reach.mono hok, hok _ _ h.ok, h.shared⟩

theorem Turn.mono {tid : ℕ} {c : Call} {o : Op} {a : Ans} {l : τ}
    (h : D.Turn R ok w₀ s tid c o a l) (hok : ∀ s a, ok s a → ok₀ s a) :
    D.Turn R ok₀ w₀ s tid c o a l :=
  ⟨h.toNext.mono hok, h.task, h.owned⟩

/-- A discipline that is sound under a condition is sound under a stronger one. -/
theorem Sound.mono (h : D.Sound R ok₀ w₀) (hok : ∀ s a, ok s a → ok₀ s a) :
    D.Sound R ok w₀ where
  body := h.body
  symm := h.symm
  init := h.init
  move turn := h.move (turn.mono hok)
  others turn := h.others (turn.mono hok)
  spawned turn := h.spawned (turn.mono hok)
  abort turn := h.abort (turn.mono hok)
  react next := h.react (next.mono hok)
  reactOthers next := h.reactOthers (next.mono hok)
  reactSpawn next := h.reactSpawn (next.mono hok)
  reactRestart next := h.reactRestart (next.mono hok)

end Mono

section Extend

variable {S : World → Prop} {O : World → ℕ → Call → τ → Prop} {A : Call → τ → Call → τ → Prop}
  {ok₀ : State Op Resp World Call → Action Ans Env → Prop}

variable (D S O A) in
/-- The discipline with further facts. -/
def extend : Discipline Op Resp World Call τ where
  start := D.start
  Move := D.Move
  Final := D.Final
  Shared w := D.Shared w ∧ S w
  Owned w tid c l := D.Owned w tid c l ∧ O w tid c l
  Apart c l c' l' := D.Apart c l c' l' ∧ A c l c' l'

theorem Next.of_extend {act : Action Ans Env} (h : (D.extend S O A).Next R ok w₀ s act) :
    D.Next R ok w₀ s act :=
  ⟨h.reach, h.ok, h.shared.1⟩

theorem Turn.of_extend {tid : ℕ} {c : Call} {o : Op} {a : Ans} {l : τ}
    (h : (D.extend S O A).Turn R ok w₀ s tid c o a l) : D.Turn R ok w₀ s tid c o a l :=
  ⟨h.toNext.of_extend, h.task, h.owned.1⟩

/-- Further facts may be proved with the help of those already known. -/
theorem Sound.extend (h : D.Sound R ok₀ w₀) (hok : ∀ s a, ok s a → ok₀ s a)
    (hk : (D.extend S O A).Kept R ok w₀ S O A) : (D.extend S O A).Sound R ok w₀ := by
  have h := h.mono hok
  exact {
    body := h.body
    symm := fun hap => ⟨h.symm hap.1, hk.symm hap.2⟩
    init := ⟨⟨h.init.1, hk.init.1⟩, h.init.2, hk.init.2⟩
    move := fun turn hp hm => by
      obtain ⟨h₁, h₂⟩ := h.move turn.of_extend hp hm
      obtain ⟨k₁, k₂⟩ := hk.move turn hp hm
      exact ⟨⟨h₁, k₁⟩, h₂, k₂⟩
    others := fun turn hp hm hne ht hkeep howned hap => by
      obtain ⟨h₁, h₂⟩ := h.others turn.of_extend hp hm hne ht hkeep howned.1 hap.1
      obtain ⟨k₁, k₂⟩ := hk.others turn hp hm hne ht hkeep howned hap
      exact ⟨⟨h₁, k₁⟩, h₂, k₂⟩
    spawned := fun turn hp hm => by
      obtain ⟨h₁, h₂, h₃⟩ := h.spawned turn.of_extend hp hm
      obtain ⟨k₁, k₂, k₃⟩ := hk.spawned turn hp hm
      exact ⟨⟨h₁, k₁⟩, ⟨h₂, k₂⟩, fun hne ht hkeep howned hap =>
        ⟨h₃ hne ht hkeep howned.1 hap.1, k₃ hne ht hkeep howned hap⟩⟩
    abort := fun turn hp => by
      obtain ⟨h₁, h₂⟩ := h.abort turn.of_extend hp
      obtain ⟨k₁, k₂⟩ := hk.abort turn hp
      exact ⟨⟨h₁, k₁⟩, h₂, k₂⟩
    react := fun next hr => ⟨h.react next.of_extend hr, hk.react next hr⟩
    reactOthers := fun next hr hch ht hkeep howned =>
      ⟨h.reactOthers next.of_extend hr hch ht hkeep howned.1,
        hk.reactOthers next hr hch ht hkeep howned⟩
    reactSpawn := fun next hr => by
      obtain ⟨h₁, h₂⟩ := h.reactSpawn next.of_extend hr
      obtain ⟨k₁, k₂⟩ := hk.reactSpawn next hr
      exact ⟨⟨h₁, k₁⟩, fun ht hkeep howned => ⟨h₂ ht hkeep howned.1, k₂ ht hkeep howned⟩⟩
    reactRestart := fun next hr => ⟨h.reactRestart next.of_extend hr, hk.reactRestart next hr⟩ }

end Extend

end Discipline

/-! ### A second protocol

A discipline may be refined by a second protocol for the same programs, whose local states follow
other operations more closely.  A task that has ended leaves the second protocol, so that what is
said of its local states concerns tasks that are still at work. -/

/-- A protocol for the tasks of a runtime. -/
structure Protocol (Op : Type) (Resp : Op → Type) (Call σ : Type) where
  start : Call → σ
  Move : Call → σ → (o : Op) → Resp o → σ → Prop
  Final : Call → σ → Prop

namespace Protocol

variable {σ : Type} (P : Protocol Op Resp Call σ)

/-- A step of a task: it goes on in a local state, or this was its last operation. -/
inductive Step (c : Call) : Option σ → (o : Op) → Resp o → Option σ → Prop where
  | go {l l' : σ} {o : Op} {r : Resp o} : P.Move c l o r l' → Step c (some l) o r (some l')
  | quit {l l' : σ} {o : Op} {r : Resp o} : P.Move c l o r l' → P.Final c l' →
      Step c (some l) o r none

variable {P}

theorem Step.cases {c : Call} {o : Op} {r : Resp o} {x y : Option σ} (h : P.Step c x o r y) :
    ∃ l l', x = some l ∧ P.Move c l o r l' ∧ (y = some l' ∨ y = none ∧ P.Final c l') := by
  cases h with
  | go hm => exact ⟨_, _, rfl, hm, Or.inl rfl⟩
  | quit hm hf => exact ⟨_, _, rfl, hm, Or.inr ⟨rfl, hf⟩⟩

theorem Step.move {c : Call} {o : Op} {r : Resp o} {x y : Option σ} (h : P.Step c x o r y) :
    ∃ l l', x = some l ∧ P.Move c l o r l' ∧ ∀ m, y = some m → m = l' := by
  obtain ⟨l, l', hx, hm, rfl | ⟨rfl, -⟩⟩ := h.cases
  · exact ⟨l, l', hx, hm, fun _ hy => (Option.some.inj hy).symm⟩
  · exact ⟨l, l', hx, hm, nofun⟩

/-- A program that has not ended leaves the protocol with its last operation. -/
theorem follows_step {c : Call} {α : Type} {p : Prog Op Resp α} {l : σ}
    (h : Follows (P.Move c) (fun _ => P.Final c) p l) (hp : p.ended = false) :
    Follows (P.Step c) (fun _ l' => l' = none) p (some l) := by
  induction p generalizing l with
  | pure a => cases hp
  | op o k ih =>
    intro r
    obtain ⟨l', hm, hk⟩ := h r
    rcases hr : k r with a | ⟨o', k'⟩
    · rw [hr] at hk
      exact ⟨none, .quit hm hk, rfl⟩
    · rw [← hr]
      exact ⟨some l', .go hm, ih r hk (by rw [hr]; rfl)⟩

end Protocol

namespace Discipline

variable {τ σ : Type} (D : Discipline Op Resp World Call τ) (P : Protocol Op Resp Call σ)

/-- The discipline refined by a second protocol. -/
def refine : Discipline Op Resp World Call (τ × Option σ) where
  start c := (D.start c, some (P.start c))
  Move c l o r l' := D.Move c l.1 o r l'.1 ∧ P.Step c l.2 o r l'.2
  Final c l := D.Final c l.1 ∧ (l.2 = none ∨ l.2 = some (P.start c) ∧ P.Final c (P.start c))
  Shared := D.Shared
  Owned w tid c l := D.Owned w tid c l.1
  Apart c l c' l' := D.Apart c l.1 c' l'.1

variable {D P} {R : Runtime Op Resp World Call Ans Env}
  {ok : State Op Resp World Call → Action Ans Env → Prop} {w₀ : World}
  {s : State Op Resp World Call}

/-- A task that is still in the second protocol, and not at its start, has not ended. -/
theorem not_ended_of_refine {t : Task Op Resp Call} {l : τ × Option σ} {m : σ}
    (h : (D.refine P).Keeps t l) (hl : l.2 = some m) (hm : m ≠ P.start t.call) :
    t.rest.ended = false := by
  rcases t with ⟨c, a | ⟨o, k⟩⟩
  · obtain ⟨-, hnone | ⟨hs, -⟩⟩ : (D.refine P).Final c l := h
    · rw [hl] at hnone
      cases hnone
    · rw [hl] at hs
      exact absurd (Option.some.inj hs) hm
  · rfl

/-- A task that has ended has left the second protocol, if it may not end at its start. -/
theorem eq_none_of_refine {t : Task Op Resp Call} {l : τ × Option σ}
    (h : (D.refine P).Keeps t l) (hend : t.rest.ended = true)
    (hstart : ¬ P.Final t.call (P.start t.call)) : l.2 = none := by
  rcases t with ⟨c, a | ⟨o, k⟩⟩
  · obtain ⟨-, hnone | ⟨-, hf⟩⟩ : (D.refine P).Final c l := h
    · exact hnone
    · exact absurd hf hstart
  · cases hend

theorem follows_refine {c : Call} {p : Prog Op Resp Unit}
    (h : Follows (D.Move c) (fun _ => D.Final c) p (D.start c))
    (hP : Follows (P.Move c) (fun _ => P.Final c) p (P.start c)) :
    Follows ((D.refine P).Move c) (fun _ => (D.refine P).Final c) p ((D.refine P).start c) := by
  rcases hp : p with a | ⟨o, k⟩
  · rw [hp] at h hP
    exact ⟨h, Or.inr ⟨rfl, hP⟩⟩
  · rw [← hp]
    exact (h.both (Protocol.follows_step hP (by rw [hp]; rfl))).mono fun _ _ hQ =>
      ⟨hQ.1, Or.inl hQ.2⟩

theorem Keeps.of_refine {t : Task Op Resp Call} {l : τ × Option σ}
    (h : (D.refine P).Keeps t l) : D.Keeps t l.1 :=
  Follows.map Prod.fst h (fun hm => hm.1) fun hQ => hQ.1

theorem Next.of_refine {act : Action Ans Env} (h : (D.refine P).Next R ok w₀ s act) :
    D.Next R ok w₀ s act :=
  ⟨h.reach, h.ok, h.shared⟩

theorem Turn.of_refine {tid : ℕ} {c : Call} {o : Op} {a : Ans} {l : τ × Option σ}
    (h : (D.refine P).Turn R ok w₀ s tid c o a l) : D.Turn R ok w₀ s tid c o a l.1 :=
  ⟨h.toNext.of_refine, h.task, h.owned⟩

/-- A sound discipline stays sound under a second protocol that the programs keep to. -/
theorem Sound.refine (h : D.Sound R ok w₀)
    (hP : ∀ c, Follows (P.Move c) (fun _ => P.Final c) (R.body c) (P.start c)) :
    (D.refine P).Sound R ok w₀ where
  body c := follows_refine (h.body c) (hP c)
  symm hap := h.symm hap
  init := h.init
  move turn hp hm := h.move turn.of_refine hp hm.1
  others turn hp hm hne ht hkeep howned hap :=
    h.others turn.of_refine hp hm.1 hne ht hkeep.of_refine howned hap
  spawned turn hp hm := by
    obtain ⟨h₁, h₂, h₃⟩ := h.spawned turn.of_refine hp hm.1
    exact ⟨h₁, h₂, fun hne ht hkeep howned hap => h₃ hne ht hkeep.of_refine howned hap⟩
  abort turn hp := h.abort turn.of_refine hp
  react next hr := h.react next.of_refine hr
  reactOthers next hr hch ht hkeep howned :=
    h.reactOthers next.of_refine hr hch ht hkeep.of_refine howned
  reactSpawn next hr := by
    obtain ⟨h₁, h₂⟩ := h.reactSpawn next.of_refine hr
    exact ⟨h₁, fun ht hkeep howned => h₂ ht hkeep.of_refine howned⟩
  reactRestart next hr := h.reactRestart next.of_refine hr

end Discipline

end Async
