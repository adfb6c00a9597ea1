import Mathlib.Logic.Function.Basic
import Mathlib.Tactic.Common

/-!
# Programs with effects

A program is a tree of operations: each node performs one operation and continues with its answer.
What an operation does to the world is not part of the program, so one program text can be run
alone (`Prog.exec`), or interleaved with other programs one operation at a time.

`Follows` relates a program to a protocol, a relation that says which operations may be performed
in which local state and which local state they lead to.
-/

set_option autoImplicit false

namespace Async

/-- A program that performs operations `o : Op`, each answered by a `Resp o`, and returns an `α`. -/
inductive Prog (Op : Type) (Resp : Op → Type) (α : Type) where
  | pure (a : α)
  | op (o : Op) (k : Resp o → Prog Op Resp α)

namespace Prog

variable {Op : Type} {Resp : Op → Type} {α β γ : Type}

/-- Run `p`, then `f` on its result. -/
def bind : Prog Op Resp α → (α → Prog Op Resp β) → Prog Op Resp β
  | .pure a, f => f a
  | .op o k, f => .op o fun r => (k r).bind f

instance : Monad (Prog Op Resp) where
  pure := .pure
  bind := .bind

/-- Perform one operation and return its answer. -/
def perform (o : Op) : Prog Op Resp (Resp o) := .op o .pure

/-- The loop `for x in xs`: run `f` on every element, in order. -/
def forEach (f : γ → Prog Op Resp Unit) : List γ → Prog Op Resp Unit
  | [] => .pure ()
  | x :: xs => (f x).bind fun _ => forEach f xs

@[simp] theorem pure_bind' (a : α) (f : α → Prog Op Resp β) :
    ((Pure.pure a : Prog Op Resp α) >>= f) = f a := rfl

@[simp] theorem perform_bind (o : Op) (f : Resp o → Prog Op Resp β) :
    (perform o >>= f) = .op o f := rfl

@[simp] theorem forEach_nil (f : γ → Prog Op Resp Unit) : forEach f [] = .pure () := rfl

@[simp] theorem forEach_cons (f : γ → Prog Op Resp Unit) (x : γ) (xs : List γ) :
    forEach f (x :: xs) = (f x >>= fun _ => forEach f xs) := rfl

/-- Whether the program has ended. -/
def ended : Prog Op Resp α → Bool
  | .pure _ => true
  | .op _ _ => false

/-! ## Running a program alone -/

variable {World : Type}

/-- Run a program to its end with nothing else running. `act` performs one operation; an operation
that it refuses (`none`) ends the run without a result. -/
def exec (act : (o : Op) → World → Option (Resp o × World)) :
    Prog Op Resp α → World → Option α × World
  | .pure a, w => (some a, w)
  | .op o k, w =>
    match act o w with
    | none => (none, w)
    | some (r, w') => (k r).exec act w'

section

variable {act : (o : Op) → World → Option (Resp o × World)} {w w' : World}

@[simp] theorem exec_pure (a : α) (w : World) :
    (pure a : Prog Op Resp α).exec act w = (some a, w) := rfl

theorem exec_perform {o : Op} {r : Resp o} (f : Resp o → Prog Op Resp α)
    (h : act o w = some (r, w')) : (perform o >>= f).exec act w = (f r).exec act w' := by
  rw [perform_bind, exec, h]

/-- A program that returns, and what follows it. -/
theorem exec_bind {p : Prog Op Resp α} {a : α} (f : α → Prog Op Resp β)
    (h : p.exec act w = (some a, w')) : (p >>= f).exec act w = (f a).exec act w' := by
  induction p generalizing w with
  | pure b =>
    obtain ⟨hb, rfl⟩ := Prod.mk.inj h
    obtain rfl := Option.some.inj hb
    rfl
  | op o k ih =>
    change exec act (.op o fun r => (k r).bind f) w = _
    simp only [exec] at h ⊢
    rcases ho : act o w with _ | ⟨r, w₁⟩
    · simp [ho] at h
    · rw [ho] at h
      exact ih r h

end

variable (act : (o : Op) → World → Option (Resp o × World))

/-- The turns of a loop: each element with the world in which its turn begins. -/
def turns (f : γ → Prog Op Resp Unit) : List γ → World → List (γ × World)
  | [], _ => []
  | x :: xs, w => (x, w) :: turns f xs ((f x).exec act w).2

variable {act} {f : γ → Prog Op Resp Unit}

/-- A loop keeps what each of its turns keeps. -/
theorem exec_forEach_keep {G : World → Prop} (xs : List γ)
    (h : ∀ x ∈ xs, ∀ w, G w → ∃ w', (f x).exec act w = (some (), w') ∧ G w') {w : World} (hw : G w) :
    ∃ w', (forEach f xs).exec act w = (some (), w') ∧ G w' := by
  induction xs generalizing w with
  | nil => exact ⟨w, rfl, hw⟩
  | cons x xs ih =>
    obtain ⟨w₁, he₁, hw₁⟩ := h x List.mem_cons_self w hw
    obtain ⟨w₂, he₂, hw₂⟩ := ih (fun y hy => h y (List.mem_cons_of_mem _ hy)) hw₁
    exact ⟨w₂, by rw [forEach_cons, exec_bind _ he₁, he₂], hw₂⟩

/-- A loop each of whose turns returns. If a turn that begins in `w` and ends in `w'` keeps `I`
exactly where `C` holds of it, then the loop keeps `I` exactly where `C` holds of all its turns. -/
theorem exec_forEach {I : World → Prop} {C : γ → World → Prop} {G : World → Prop} (xs : List γ)
    (h : ∀ x ∈ xs, ∀ w, G w → ∃ w', (f x).exec act w = (some (), w') ∧ G w' ∧
      (I w' ↔ I w ∧ C x w)) {w : World} (hw : G w) :
    ∃ w', (forEach f xs).exec act w = (some (), w') ∧
      (I w' ↔ I w ∧ ∀ t ∈ turns act f xs w, C t.1 t.2) := by
  induction xs generalizing w with
  | nil => exact ⟨w, rfl, by simp [turns]⟩
  | cons x xs ih =>
    obtain ⟨w₁, he₁, hg₁, hi₁⟩ := h x List.mem_cons_self w hw
    obtain ⟨w₂, he₂, hi₂⟩ := ih (fun y hy => h y (List.mem_cons_of_mem _ hy)) hg₁
    refine ⟨w₂, ?_, ?_⟩
    · rw [forEach_cons, exec_bind _ he₁, he₂]
    · simp only [turns, List.forall_mem_cons, he₁]
      rw [hi₂, hi₁, and_assoc]

/-- A loop over elements with distinct keys, each of whose turns changes only what `view` shows at its
own key, and there as `T` says: so does the loop. -/
theorem exec_forEach_keyed {κ V : Type} {key : γ → κ} {view : κ → World → V} {T : γ → V → V → Prop}
    (xs : List γ) (hnd : (xs.map key).Nodup)
    (h : ∀ x ∈ xs, ∀ w, ∃ w', (f x).exec act w = (some (), w') ∧
      (∀ k, k ≠ key x → view k w' = view k w) ∧ T x (view (key x) w) (view (key x) w')) (w : World) :
    ∃ w', (forEach f xs).exec act w = (some (), w') ∧
      (∀ k, k ∉ xs.map key → view k w' = view k w) ∧
      ∀ x ∈ xs, T x (view (key x) w) (view (key x) w') := by
  induction xs generalizing w with
  | nil => exact ⟨w, rfl, fun _ _ => rfl, nofun⟩
  | cons x xs ih =>
    obtain ⟨hx, hnd⟩ := List.nodup_cons.1 hnd
    obtain ⟨w₁, he₁, hframe₁, ht₁⟩ := h x List.mem_cons_self w
    obtain ⟨w₂, he₂, hframe₂, ht₂⟩ := ih hnd (fun y hy => h y (List.mem_cons_of_mem _ hy)) w₁
    refine ⟨w₂, by rw [forEach_cons, exec_bind _ he₁, he₂], ?_, ?_⟩
    · intro k hk
      simp only [List.map_cons, List.mem_cons, not_or] at hk
      rw [hframe₂ k hk.2, hframe₁ k hk.1]
    · intro y hy
      -- the turn of `x` shows in the end, and it has not changed what the others start from
      rcases List.mem_cons.1 hy with rfl | hy
      · rw [hframe₂ _ hx]
        exact ht₁
      · have hne : key y ≠ key x := fun heq => hx (heq ▸ List.mem_map_of_mem hy)
        rw [← hframe₁ _ hne]
        exact ht₂ y hy

/-- Some of the operations of a program, with nothing else running: `p` in `w` gets to `p'` in
`w'`. -/
inductive Steps (act : (o : Op) → World → Option (Resp o × World)) :
    Prog Op Resp α → World → Prog Op Resp α → World → Prop where
  | refl {p : Prog Op Resp α} {w : World} : Steps act p w p w
  | step {o : Op} {k : Resp o → Prog Op Resp α} {r : Resp o} {p' : Prog Op Resp α}
      {w w₁ w' : World} : act o w = some (r, w₁) → Steps act (k r) w₁ p' w' →
      Steps act (.op o k) w p' w'

theorem steps_of_exec {p : Prog Op Resp α} {a : α} {w : World} (h : (p.exec act w).1 = some a) :
    Steps act p w (.pure a) (p.exec act w).2 := by
  induction p generalizing w with
  | pure b =>
    obtain rfl := Option.some.inj h
    exact .refl
  | op o k ih =>
    simp only [exec] at h ⊢
    rcases ho : act o w with _ | ⟨r, w₁⟩
    · simp [ho] at h
    · rw [ho] at h
      exact .step ho (ih r h)

/-- A run ends where the program ends, or where an operation is refused. -/
theorem exists_steps_exec (p : Prog Op Resp α) (w : World) :
    ∃ p', Steps act p w p' (p.exec act w).2 := by
  induction p generalizing w with
  | pure a => exact ⟨_, .refl⟩
  | op o k ih =>
    simp only [exec]
    rcases ho : act o w with _ | ⟨r, w₁⟩
    · exact ⟨_, .refl⟩
    · obtain ⟨p', hs⟩ := ih r w₁
      exact ⟨p', .step ho hs⟩

end Prog

/-! ## Programs that keep to a protocol -/

section Follows

variable {Op : Type} {Resp : Op → Type} {α β γ τ : Type}

/-- The program keeps to the protocol `Move` from the local state `l`: whatever each operation is
answered, `Move` allows it and gives the next local state, and the program ends with a result and
a local state that satisfy `Q`. -/
def Follows (Move : τ → (o : Op) → Resp o → τ → Prop) (Q : α → τ → Prop) :
    Prog Op Resp α → τ → Prop
  | .pure a, l => Q a l
  | .op o k, l => ∀ r, ∃ l', Move l o r l' ∧ Follows Move Q (k r) l'

variable {Move : τ → (o : Op) → Resp o → τ → Prop} {Q : α → τ → Prop} {l : τ}

@[simp] theorem follows_pure (a : α) :
    Follows Move Q (pure a : Prog Op Resp α) l ↔ Q a l := Iff.rfl

@[simp] theorem follows_pure' (a : α) :
    Follows Move Q (Prog.pure a : Prog Op Resp α) l ↔ Q a l := Iff.rfl

/-- One operation and what follows it. -/
theorem follows_perform {o : Op} {f : Resp o → Prog Op Resp α}
    (h : ∀ r, ∃ l', Move l o r l' ∧ Follows Move Q (f r) l') :
    Follows Move Q (Prog.perform o >>= f) l := h

/-- One operation that leaves the local state as it is. -/
theorem follows_stay {o : Op} {f : Resp o → Prog Op Resp α} (hm : ∀ r, Move l o r l)
    (h : ∀ r, Follows Move Q (f r) l) : Follows Move Q (Prog.perform o >>= f) l :=
  fun r => ⟨l, hm r, h r⟩

/-- An operation at the end of a program. -/
theorem follows_last {o : Op} {Q : Resp o → τ → Prop} (h : ∀ r, ∃ l', Move l o r l' ∧ Q r l') :
    Follows Move Q (Prog.perform o) l := h

theorem Follows.mono {Q' : α → τ → Prop} {p : Prog Op Resp α} (h : Follows Move Q p l)
    (hQ : ∀ a l', Q a l' → Q' a l') : Follows Move Q' p l := by
  induction p generalizing l with
  | pure a => exact hQ a l h
  | op o k ih =>
    intro r
    obtain ⟨l', hm, hk⟩ := h r
    exact ⟨l', hm, ih r hk⟩

/-- What every move keeps holds at the end. -/
theorem Follows.keep {P : τ → Prop} {p : Prog Op Resp α} (h : Follows Move Q p l) (hl : P l)
    (hP : ∀ {l o r l'}, Move l o r l' → P l → P l') : Follows Move (fun a l' => Q a l' ∧ P l') p l := by
  induction p generalizing l with
  | pure a => exact ⟨h, hl⟩
  | op o k ih =>
    intro r
    obtain ⟨l', hm, hk⟩ := h r
    exact ⟨l', hm, ih r hk (hP hm hl)⟩

theorem Follows.bind {Q' : β → τ → Prop} {p : Prog Op Resp α} {f : α → Prog Op Resp β}
    (h : Follows Move Q p l) (hf : ∀ a l', Q a l' → Follows Move Q' (f a) l') :
    Follows Move Q' (p >>= f) l := by
  induction p generalizing l with
  | pure a => exact hf a l h
  | op o k ih =>
    intro r
    obtain ⟨l', hm, hk⟩ := h r
    exact ⟨l', hm, ih r hk⟩

/-- A loop keeps to the protocol when each of its turns leaves the local state as it is. -/
theorem follows_forEach {f : γ → Prog Op Resp Unit} (xs : List γ)
    (h : ∀ x ∈ xs, Follows Move (fun _ l' => l' = l) (f x) l) :
    Follows Move (fun _ l' => l' = l) (Prog.forEach f xs) l := by
  induction xs with
  | nil => exact rfl
  | cons x xs ih =>
    rw [Prog.forEach_cons]
    refine (h x (List.mem_cons_self ..)).bind ?_
    rintro _ _ rfl
    exact ih fun y hy => h y (List.mem_cons_of_mem _ hy)

/-- A loop whose local state is what it still has to go through: each turn takes one element. -/
theorem follows_forEach_todo {f : γ → Prog Op Resp Unit} {todo : List γ → τ} (xs : List γ)
    (h : ∀ x xs, Follows Move (fun _ l' => l' = todo xs) (f x) (todo (x :: xs))) :
    Follows Move (fun _ l' => l' = todo []) (Prog.forEach f xs) (todo xs) := by
  induction xs with
  | nil => exact rfl
  | cons x xs ih =>
    rw [Prog.forEach_cons]
    refine (h x xs).bind ?_
    rintro _ _ rfl
    exact ih

/-- Two protocols at once. -/
theorem Follows.both {σ : Type} {Move' : σ → (o : Op) → Resp o → σ → Prop} {Q' : α → σ → Prop}
    {l' : σ} {p : Prog Op Resp α} (h : Follows Move Q p l) (h' : Follows Move' Q' p l') :
    Follows (fun x o r y => Move x.1 o r y.1 ∧ Move' x.2 o r y.2)
      (fun a x => Q a x.1 ∧ Q' a x.2) p (l, l') := by
  induction p generalizing l l' with
  | pure a => exact ⟨h, h'⟩
  | op o k ih =>
    intro r
    obtain ⟨l₁, hm, hk⟩ := h r
    obtain ⟨l₂, hm', hk'⟩ := h' r
    exact ⟨(l₁, l₂), ⟨hm, hm'⟩, ih r hk hk'⟩

/-- A protocol that another one simulates. -/
theorem Follows.map {σ : Type} {Move' : σ → (o : Op) → Resp o → σ → Prop} {Q' : α → σ → Prop}
    {p : Prog Op Resp α} (f : τ → σ) (h : Follows Move Q p l)
    (hm : ∀ {l o r l'}, Move l o r l' → Move' (f l) o r (f l'))
    (hQ : ∀ {a l}, Q a l → Q' a (f l)) : Follows Move' Q' p (f l) := by
  induction p generalizing l with
  | pure a => exact hQ h
  | op o k ih =>
    intro r
    obtain ⟨l', hl', hk⟩ := h r
    exact ⟨f l', hm hl', ih r hk⟩

/-- What the protocol allows as the next operation of a program that has not ended. -/
theorem Follows.move {o : Op} {k : Resp o → Prog Op Resp α} (h : Follows Move Q (.op o k) l)
    (r : Resp o) : ∃ l', Move l o r l' ∧ Follows Move Q (k r) l' := h r

/-- The program has not ended, and its next operation is in `P`.  An operation without answers, after
which no program goes on, is in every `P`. -/
def Prog.Next (P : Op → Prop) : Prog Op Resp α → Prop
  | .pure _ => False
  | .op o _ => Nonempty (Resp o) → P o

/-- What comes next in a local state in which the program may not end. -/
theorem Follows.next {P : Op → Prop} {p : Prog Op Resp α} (h : Follows Move Q p l)
    (hQ : ∀ a, ¬ Q a l) (hP : ∀ o r l', Move l o r l' → P o) : p.Next P := by
  rcases p with a | ⟨o, k⟩
  · exact hQ a h
  · rintro ⟨r⟩
    obtain ⟨l', hm, -⟩ := h.move r
    exact hP o r l' hm

/-- A program that runs alone stays at its protocol, and the world stays in step with the local
state. -/
theorem Follows.steps {World : Type} {act : (o : Op) → World → Option (Resp o × World)}
    {S : τ → World → Prop}
    (hstep : ∀ {l o r l' w w'}, S l w → Move l o r l' → act o w = some (r, w') → S l' w')
    {p p' : Prog Op Resp α} {w w' : World} (hs : Prog.Steps act p w p' w')
    (h : Follows Move Q p l) (hl : S l w) : ∃ l', Follows Move Q p' l' ∧ S l' w' := by
  induction hs generalizing l with
  | refl => exact ⟨l, h, hl⟩
  | step ho _ ih =>
    obtain ⟨l', hm, hk⟩ := h.move _
    exact ih hk (hstep hl hm ho)

/-- The protocol that allows everything and records it, newest first. -/
def Recording (l : List (Sigma Resp)) (o : Op) (r : Resp o) (l' : List (Sigma Resp)) : Prop :=
  l' = ⟨o, r⟩ :: l

/-! ### Programs that a protocol does not restrict -/

/-- Every operation that the program can perform satisfies `P`. -/
def Prog.Only (P : Op → Prop) (p : Prog Op Resp α) : Prop :=
  Follows (fun (_ : Unit) o _ _ => P o) (fun _ _ => True) p ()

variable {P : Op → Prop}

@[simp] theorem only_pure (a : α) : (pure a : Prog Op Resp α).Only P := trivial

@[simp] theorem only_pure' (a : α) : (Prog.pure a : Prog Op Resp α).Only P := trivial

@[simp] theorem only_op {o : Op} {k : Resp o → Prog Op Resp α} :
    (Prog.op o k).Only P ↔ ∀ r, P o ∧ (k r).Only P :=
  forall_congr' fun _ => ⟨fun ⟨_, h, hk⟩ => ⟨h, hk⟩, fun ⟨h, hk⟩ => ⟨(), h, hk⟩⟩

/-- One operation and what follows it. -/
theorem only_perform {o : Op} {f : Resp o → Prog Op Resp α} (h : P o) (hf : ∀ r, (f r).Only P) :
    (Prog.perform o >>= f).Only P :=
  only_op.2 fun r => ⟨h, hf r⟩

/-- An operation at the end of a program. -/
theorem only_last {o : Op} (h : P o) : (Prog.perform o : Prog Op Resp _).Only P :=
  only_op.2 fun _ => ⟨h, trivial⟩

theorem Prog.Only.imp {P' : Op → Prop} {p : Prog Op Resp α} (h : p.Only P) (hP : ∀ o, P o → P' o) :
    p.Only P' :=
  Follows.map id h (fun hm => hP _ hm) id

theorem Prog.Only.bind {p : Prog Op Resp α} {f : α → Prog Op Resp β} (h : p.Only P)
    (hf : ∀ a, (f a).Only P) : (p >>= f).Only P :=
  Follows.bind h fun a _ _ => hf a

theorem only_forEach {f : γ → Prog Op Resp Unit} (h : ∀ x, (f x).Only P) (xs : List γ) :
    (Prog.forEach f xs).Only P :=
  (follows_forEach xs fun x _ => (h x).mono fun _ _ _ => rfl).mono fun _ _ _ => trivial

/-- A program whose operations all leave the local state alone. -/
theorem Prog.Only.follows {p : Prog Op Resp α} (h : p.Only P) (hm : ∀ o r, P o → Move l o r l) :
    Follows Move (fun _ l' => l' = l) p l := by
  induction p with
  | pure a => exact rfl
  | op o k ih =>
    rw [only_op] at h
    exact fun r => ⟨l, hm o r (h r).1, ih r (h r).2⟩

end Follows

end Async
