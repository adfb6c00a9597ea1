import LightningRelay.Async.Replay

/-!
# Programs inside other programs

`Prog.embed` runs a program where more operations are available than it uses.  `Guarded` is the
protocol that looks at the operations so far before it allows one; a program that keeps to it does so
along every run, also one that is cut off (`Follows.guarded`).
-/

set_option autoImplicit false

namespace Async

variable {Op Op' : Type} {Resp : Op → Type} {Resp' : Op' → Type} {α : Type}

/-- The program with its operations renamed. -/
def Prog.embed (f : Op → Op') (g : ∀ o, Resp' (f o) → Resp o) : Prog Op Resp α → Prog Op' Resp' α
  | .pure a => .pure a
  | .op o k => .op (f o) fun r => (k (g o r)).embed f g

variable {f : Op → Op'} {g : ∀ o, Resp' (f o) → Resp o}

theorem Prog.Only.embed {P : Op → Prop} {P' : Op' → Prop} {p : Prog Op Resp α} (h : p.Only P)
    (hP : ∀ o, P o → P' (f o)) : (p.embed f g).Only P' := by
  induction p with
  | pure a => trivial
  | op o k ih =>
    intro r
    obtain ⟨ho, hk⟩ := only_op.1 h (g o r)
    exact ⟨_, hP o ho, ih _ hk⟩

/-- The operations of a run, also one that is cut off. -/
theorem Prog.Only.of_mem {P : Op → Prop} {p q : Prog Op Resp α} {tr : List (Sigma Resp)} (h : p.Only P)
    (hr : p.Replays tr q) {x : Sigma Resp} (hx : x ∈ tr) : P x.1 := by
  induction hr with
  | refl => cases hx
  | @step o k r _ _ _ ih =>
    obtain ⟨ho, hk⟩ := only_op.1 h r
    rcases List.mem_cons.1 hx with rfl | hx
    · exact ho
    · exact ih hk hx

/-! ## Runs to the end -/

theorem Prog.Replays.of_pure {a b : α} {tr : List (Sigma Resp)}
    (h : (Prog.pure a : Prog Op Resp α).Replays tr (.pure b)) : tr = [] ∧ b = a := by
  cases h
  exact ⟨rfl, rfl⟩

/-- A run that ends begins with an answer to the first operation. -/
theorem Prog.Replays.of_op {o : Op} {k : Resp o → Prog Op Resp α} {a : α} {tr : List (Sigma Resp)}
    (h : (Prog.op o k).Replays tr (.pure a)) :
    ∃ r rest, tr = ⟨o, r⟩ :: rest ∧ (k r).Replays rest (.pure a) := by
  cases h with
  | step h => exact ⟨_, _, rfl, h⟩

/-! ## Operations that the earlier ones allow -/

/-- The protocol that records the operations, newest first, and allows one only where `A` holds of the
record. -/
def Guarded (A : List (Sigma Resp) → Op → Prop) (l : List (Sigma Resp)) (o : Op) (r : Resp o)
    (l' : List (Sigma Resp)) : Prop :=
  l' = ⟨o, r⟩ :: l ∧ A l o

variable {A : List (Sigma Resp) → Op → Prop} {Q : α → List (Sigma Resp) → Prop}
  {p p' : Prog Op Resp α} {l tr : List (Sigma Resp)}

theorem Follows.guarded (h : Follows (Guarded A) Q p l) (hr : p.Replays tr p') {o : Op} {r : Resp o}
    {before after : List (Sigma Resp)} (htr : tr = before ++ ⟨o, r⟩ :: after) :
    A (before.reverse ++ l) o := by
  induction hr generalizing l before with
  | refl => exact absurd htr.symm (by simp)
  | @step o' k r' tr _ _ ih =>
    obtain ⟨_, ⟨rfl, hA⟩, hk⟩ := h.move r'
    cases before with
    | nil =>
      obtain ⟨heq, -⟩ := List.cons.inj htr
      cases heq
      exact hA
    | cons x before =>
      obtain ⟨rfl, htl⟩ := List.cons.inj htr
      have hbefore := ih hk htl
      rwa [List.reverse_cons, List.append_assoc]

/-- One operation that the record allows. -/
theorem follows_guarded {o : Op} {f : Resp o → Prog Op Resp α} (hA : A l o)
    (h : ∀ r, Follows (Guarded A) Q (f r) (⟨o, r⟩ :: l)) :
    Follows (Guarded A) Q (Prog.perform o >>= f) l :=
  follows_perform fun r => ⟨_, ⟨rfl, hA⟩, h r⟩

/-- Operations that every record allows. -/
theorem Prog.Only.guarded (h : p.Only fun o => ∀ l, A l o) (l : List (Sigma Resp)) :
    Follows (Guarded A) (fun _ _ => True) p l := by
  induction p generalizing l with
  | pure a => trivial
  | op o k ih =>
    intro r
    obtain ⟨ho, hk⟩ := only_op.1 h r
    exact ⟨_, ⟨rfl, ho l⟩, ih r hk _⟩

/-- The operations that a program performs, with the answers of `ans`, up to one that has none. -/
def Prog.answered (ans : (o : Op) → Option (Resp o)) : Prog Op Resp α → List (Sigma Resp)
  | .pure _ => []
  | .op o k =>
    match ans o with
    | none => []
    | some r => ⟨o, r⟩ :: (k r).answered ans

theorem Prog.replays_answered (ans : (o : Op) → Option (Resp o)) (p : Prog Op Resp α) :
    ∃ p', p.Replays (p.answered ans) p' := by
  induction p with
  | pure a => exact ⟨_, .refl⟩
  | op o k ih =>
    rw [answered]
    rcases ans o with _ | r
    · exact ⟨_, .refl⟩
    · obtain ⟨p', hp'⟩ := ih r
      exact ⟨p', .step hp'⟩

end Async
