import LightningRelay.Async.Runtime

/-!
# Permits

Tasks that may act on a key only with a permit for it.  A task starts with the permits of its call
and gets more by the answers to what it asks; an operation names the keys for which it needs a
permit.  If permits are only given out for keys that are good, and a key that is good stays good,
then every operation that is performed in a run acts on good keys, and the world keeps what it
remembers of them: `Valid.shared`.

The world may remember what was done with permits (`Shared`), and permits may be given out by what
it remembers, so that they survive a restart that loses every task.
-/

set_option autoImplicit false

namespace Async

/-- The permits with which a call starts, those that an operation needs, those that its answer gives,
which keys are good in a world, and what the world remembers. -/
structure Permits (Op : Type) (Resp : Op → Type) (World Call κ : Type) where
  start : Call → List κ
  needs : Call → Op → List κ
  gives : Call → (o : Op) → Resp o → List κ
  Good : World → κ → Prop
  Shared : World → Prop

namespace Permits

variable {Op : Type} {Resp : Op → Type} {World Call Ans Env κ α β γ : Type}
  (P : Permits Op Resp World Call κ)

/-- An operation with the permits before and after it. -/
def Move (c : Call) (l : List κ) (o : Op) (r : Resp o) (l' : List κ) : Prop :=
  (∀ k ∈ P.needs c o, k ∈ l) ∧ l' = P.gives c o r ++ l

/-- The permits as a discipline: what a task has a permit for is good. -/
def discipline : Discipline Op Resp World Call (List κ) where
  start := P.start
  Move := P.Move
  Final _ _ := True
  Shared := P.Shared
  Owned w _ _ l := ∀ k ∈ l, P.Good w k
  Apart _ _ _ _ := True

/-- What has to be checked of permits: the programs perform what they have permits for, the boot task
starts with none, keys that are good stay good, the world keeps what it remembers where operations
act on good keys, and permits are given out for good keys only. -/
structure Valid (R : Runtime Op Resp World Call Ans Env)
    (ok : State Op Resp World Call → Action Ans Env → Prop) (w₀ : World) : Prop where
  body : ∀ c, Follows (P.Move c) (fun _ _ => True) (R.body c) (P.start c)
  boot : P.start R.boot = []
  init : P.Shared w₀
  lasting : ∀ {tid c o a w r w' sp k}, R.perform tid c o a w = .resume r w' sp → P.Good w k →
    P.Good w' k
  kept : ∀ {tid c o a w r w' sp}, R.perform tid c o a w = .resume r w' sp → P.Shared w →
    (∀ k ∈ P.needs c o, P.Good w k) → P.Shared w' ∧ ∀ k ∈ P.gives c o r, P.Good w' k
  spawned : ∀ {tid c o a w r w' c'}, R.perform tid c o a w = .resume r w' (some c') →
    ∀ k ∈ P.start c', k ∈ P.needs c o
  abort : ∀ {tid c o a w w'}, R.perform tid c o a w = .abort w' → P.Shared w → P.Shared w'
  react : ∀ {e w tasks w' ch}, R.react e w tasks = some (w', ch) → P.Shared w →
    P.Shared w' ∧ (∀ k, P.Good w k → P.Good w' k) ∧
      ∀ c, ch = .spawn c → ∀ k ∈ P.start c, P.Good w' k

variable {P} {R : Runtime Op Resp World Call Ans Env}
  {ok : State Op Resp World Call → Action Ans Env → Prop} {w₀ : World}
  {s : State Op Resp World Call}

theorem Valid.sound (h : P.Valid R ok w₀) : P.discipline.Sound R ok w₀ where
  body := h.body
  symm := fun _ => trivial
  init := by
    refine ⟨h.init, fun k hk => ?_⟩
    rw [show P.discipline.start R.boot = [] from h.boot] at hk
    cases hk
  move turn hp hm := by
    obtain ⟨hneeds, rfl⟩ := hm
    obtain ⟨hshared, hgives⟩ := h.kept hp turn.shared fun k hk => turn.owned k (hneeds k hk)
    refine ⟨hshared, fun k hk => ?_⟩
    rcases List.mem_append.1 hk with hk | hk
    · exact hgives k hk
    · exact h.lasting hp (turn.owned k hk)
  others _ hp _ _ _ _ howned _ := ⟨fun k hk => h.lasting hp (howned k hk), trivial⟩
  spawned turn hp hm :=
    ⟨fun k hk => h.lasting hp (turn.owned k (hm.1 k (h.spawned hp k hk))), trivial,
      fun _ _ _ _ _ => trivial⟩
  abort turn hp := by
    refine ⟨h.abort hp turn.shared, fun k hk => ?_⟩
    rw [show P.discipline.start R.boot = [] from h.boot] at hk
    cases hk
  react next hr := (h.react hr next.shared).1
  reactOthers next hr _ _ _ howned k hk := (h.react hr next.shared).2.1 k (howned k hk)
  reactSpawn next hr := ⟨(h.react hr next.shared).2.2 _ rfl, fun _ _ _ => trivial⟩
  reactRestart next hr k hk := by
    rw [show P.discipline.start R.boot = [] from h.boot] at hk
    cases hk

/-- What the world remembers holds in every state that a run reaches. -/
theorem Valid.shared (h : P.Valid R ok w₀) (hr : R.Reach ok w₀ s) : P.Shared s.world := by
  obtain ⟨L, hL⟩ := h.sound.holds hr
  exact hL.shared

/-! ## Programs -/

section

variable (P) in
/-- The program performs what it has permits for, and keeps its permits. -/
def Permitted (c : Call) (p : Prog Op Resp α) (l : List κ) : Prop :=
  Follows (P.Move c) (fun _ l' => ∀ k ∈ l, k ∈ l') p l

variable {c : Call} {l l' : List κ}

/-- More permits do no harm. -/
theorem Permitted.weaken {p : Prog Op Resp α} (h : P.Permitted c p l) (hl : ∀ k ∈ l, k ∈ l') :
    P.Permitted c p l' := by
  suffices hgen : ∀ {l l' l₀ l₀' : List κ} {p : Prog Op Resp α},
      Follows (P.Move c) (fun _ l' => ∀ k ∈ l₀, k ∈ l') p l → (∀ k ∈ l, k ∈ l') →
        (∀ k ∈ l₀', k ∈ l') → Follows (P.Move c) (fun _ l' => ∀ k ∈ l₀', k ∈ l') p l' from
    hgen h hl fun _ hk => hk
  intro l l' l₀ l₀' p h hl hl₀
  induction p generalizing l l' with
  | pure a => exact hl₀
  | op o k ih =>
    intro r
    obtain ⟨l₁, ⟨hneeds, rfl⟩, hk⟩ := h r
    refine ⟨P.gives c o r ++ l', ⟨fun x hx => hl x (hneeds x hx), rfl⟩, ih r hk ?_ ?_⟩
    · intro x hx
      rcases List.mem_append.1 hx with hx | hx
      · exact List.mem_append_left _ hx
      · exact List.mem_append_right _ (hl x hx)
    · exact fun x hx => List.mem_append_right _ (hl₀ x hx)

theorem permitted_pure (a : α) : P.Permitted c (Prog.pure a : Prog Op Resp α) l := fun _ hk => hk

/-- One operation, and what follows it with the permits that its answer gives. -/
theorem permitted_perform {o : Op} {f : Resp o → Prog Op Resp α} (hneeds : ∀ k ∈ P.needs c o, k ∈ l)
    (h : ∀ r, P.Permitted c (f r) (P.gives c o r ++ l)) :
    P.Permitted c (Prog.perform o >>= f) l := fun r =>
  ⟨_, ⟨hneeds, rfl⟩, (h r).mono fun _ _ hl k hk => hl k (List.mem_append_right _ hk)⟩

theorem Permitted.bind {p : Prog Op Resp α} {f : α → Prog Op Resp β} (h : P.Permitted c p l)
    (hf : ∀ a, P.Permitted c (f a) l) : P.Permitted c (p >>= f) l := by
  refine Follows.bind h fun a l' hl => ?_
  exact ((hf a).weaken hl).mono fun _ _ hl' k hk => hl' k (hl k hk)

theorem permitted_forEach {f : γ → Prog Op Resp Unit} (xs : List γ)
    (h : ∀ x ∈ xs, P.Permitted c (f x) l) : P.Permitted c (Prog.forEach f xs) l := by
  induction xs with
  | nil => exact permitted_pure ()
  | cons x xs ih =>
    rw [Prog.forEach_cons]
    exact (h x List.mem_cons_self).bind fun _ => ih fun y hy => h y (List.mem_cons_of_mem _ hy)

/-- A program all of whose operations need no more than what is there. -/
theorem permitted_of_only {p : Prog Op Resp α} (h : p.Only fun o => ∀ k ∈ P.needs c o, k ∈ l) :
    P.Permitted c p l := by
  induction p generalizing l with
  | pure a => exact permitted_pure a
  | op o k ih =>
    intro r
    rw [only_op] at h
    refine ⟨_, ⟨(h r).1, rfl⟩, ?_⟩
    refine (ih r ((h r).2.imp fun _ ho x hx => List.mem_append_right _ (ho x hx))).mono ?_
    exact fun _ _ hl x hx => hl x (List.mem_append_right _ hx)

end

end Permits

end Async
