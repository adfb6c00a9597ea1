import LightningRelay.Async.Replay

/-!
# Operations and the history before them

`p.Obeys A Q l` says of a program, with the operations `l` behind it, newest first, that each operation is
one that `A` allows after those before it, whatever they were answered, and that `Q` holds at its end.
Other than in a protocol (`Follows`), this is also said of an operation that is never answered.
-/

set_option autoImplicit false

namespace Async

variable {Op : Type} {Resp : Op → Type} {α β γ : Type}

/-- See the head of the file. -/
def Prog.Obeys (A : List (Sigma Resp) → Op → Prop) (Q : α → List (Sigma Resp) → Prop) :
    Prog Op Resp α → List (Sigma Resp) → Prop
  | .pure a, l => Q a l
  | .op o k, l => A l o ∧ ∀ r, (k r).Obeys A Q (⟨o, r⟩ :: l)

variable {A : List (Sigma Resp) → Op → Prop} {Q : α → List (Sigma Resp) → Prop}
  {l tr : List (Sigma Resp)} {p q : Prog Op Resp α}

theorem obeys_pure {a : α} (h : Q a l) : (pure a : Prog Op Resp α).Obeys A Q l := h

theorem obeys_perform {o : Op} {f : Resp o → Prog Op Resp α} (h : A l o)
    (hf : ∀ r, (f r).Obeys A Q (⟨o, r⟩ :: l)) : (Prog.perform o >>= f).Obeys A Q l := ⟨h, hf⟩

theorem obeys_last {o : Op} {Q : Resp o → List (Sigma Resp) → Prop} (h : A l o)
    (hQ : ∀ r, Q r (⟨o, r⟩ :: l)) : (Prog.perform o).Obeys A Q l := ⟨h, hQ⟩

theorem Prog.Obeys.mono {Q' : α → List (Sigma Resp) → Prop} (h : p.Obeys A Q l)
    (hQ : ∀ a l, Q a l → Q' a l) : p.Obeys A Q' l := by
  induction p generalizing l with
  | pure a => exact hQ a l h
  | op o k ih => exact ⟨h.1, fun r => ih r (h.2 r)⟩

theorem Prog.Obeys.bind {R : β → List (Sigma Resp) → Prop} {f : α → Prog Op Resp β}
    (h : p.Obeys A Q l) (hf : ∀ a l, Q a l → (f a).Obeys A R l) : (p >>= f).Obeys A R l := by
  induction p generalizing l with
  | pure a => exact hf a l h
  | op o k ih => exact ⟨h.1, fun r => ih r (h.2 r)⟩

/-- A loop with an invariant of the history. -/
theorem obeys_forEach {f : γ → Prog Op Resp Unit} {J : List (Sigma Resp) → Prop} {xs : List γ}
    (h : ∀ x ∈ xs, ∀ l, J l → (f x).Obeys A (fun _ l => J l) l) (hl : J l) :
    (Prog.forEach f xs).Obeys A (fun _ l => J l) l := by
  induction xs generalizing l with
  | nil => exact hl
  | cons x xs ih =>
    exact (h x List.mem_cons_self l hl).bind fun _ l' hl' =>
      ih (fun y hy => h y (List.mem_cons_of_mem _ hy)) hl'

/-- What is left of a program obeys from where it stands. -/
theorem Prog.Obeys.replays (h : p.Obeys A Q l) (hr : p.Replays tr q) : q.Obeys A Q (tr.reverse ++ l) := by
  induction hr generalizing l with
  | refl => exact h
  | @step o k r tr q _ ih =>
    rw [List.reverse_cons, List.append_assoc]
    exact ih (h.2 r)

/-- An operation that was performed was allowed after those before it. -/
theorem Prog.Obeys.of_mem (h : p.Obeys A Q l) (hr : p.Replays tr q) {pre post : List (Sigma Resp)}
    {o : Op} {r : Resp o} (htr : tr = pre ++ ⟨o, r⟩ :: post) : A (pre.reverse ++ l) o := by
  induction hr generalizing l pre with
  | refl => simp at htr
  | @step o' k r' tr q _ ih =>
    cases pre with
    | nil =>
      obtain ⟨hx, -⟩ := List.cons.inj htr
      cases hx
      exact h.1
    | cons x pre =>
      obtain ⟨rfl, rfl⟩ := List.cons.inj htr
      rw [List.reverse_cons, List.append_assoc]
      exact ih (h.2 r') rfl

end Async
