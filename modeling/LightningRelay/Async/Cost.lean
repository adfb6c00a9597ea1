import LightningRelay.Async.Replay
import Mathlib.Algebra.BigOperators.Group.List.Basic
import Mathlib.Algebra.Order.Monoid.Canonical.Defs

/-!
# The cost of a program

Every operation has a cost, and its answer may grant something: a list of rows, what it takes to work
them off.  `p.Within n` says that `p` never spends more than `n` and what it was granted, wherever it is
stopped (`Within.spent_le`).  The bounds of the parts of a program add up (`Within.bind`,
`within_forEach`).
-/

set_option autoImplicit false

namespace Async

variable {Op : Type} {Resp : Op → Type} {α β γ M : Type} [AddCommMonoid M]

/-- What the operations of a list cost. -/
def spent (cost : Op → M) (tr : List (Sigma Resp)) : M := (tr.map fun x => cost x.1).sum

/-- What the answers of a list grant. -/
def granted (grant : (o : Op) → Resp o → M) (tr : List (Sigma Resp)) : M :=
  (tr.map fun x => grant x.1 x.2).sum

variable [PartialOrder M] (cost : Op → M) (grant : (o : Op) → Resp o → M)

/-- The program gets along with `n` and what it is granted. -/
def Prog.Within : Prog Op Resp α → M → Prop
  | .pure _, _ => True
  | .op o k, n => ∀ r, ∃ m, cost o + m ≤ n + grant o r ∧ (k r).Within m

variable {cost grant} {n m : M}

theorem within_pure (a : α) : (pure a : Prog Op Resp α).Within cost grant n := trivial

section

variable [IsOrderedAddMonoid M]

theorem Prog.Within.mono {p : Prog Op Resp α} (h : p.Within cost grant n) (hn : n ≤ m) :
    p.Within cost grant m := by
  cases p with
  | pure a => trivial
  | op o k =>
    intro r
    obtain ⟨m', hle, hk⟩ := h r
    exact ⟨m', hle.trans (by gcongr), hk⟩

/-- An operation whose answer grants something. -/
theorem within_grant {o : Op} {f : Resp o → Prog Op Resp α} (ho : cost o + m ≤ n)
    (hf : ∀ r, (f r).Within cost grant (m + grant o r)) : (Prog.perform o >>= f).Within cost grant n :=
  fun r => ⟨m + grant o r, by rw [← add_assoc]; gcongr, hf r⟩

end

section

variable [CanonicallyOrderedAdd M]

theorem within_perform {o : Op} {f : Resp o → Prog Op Resp α} (ho : cost o + m ≤ n)
    (hf : ∀ r, (f r).Within cost grant m) : (Prog.perform o >>= f).Within cost grant n := fun r =>
  ⟨m, ho.trans le_self_add, hf r⟩

/-- An operation that costs nothing. -/
theorem within_free {o : Op} {f : Resp o → Prog Op Resp α} (ho : cost o = 0)
    (hf : ∀ r, (f r).Within cost grant n) : (Prog.perform o >>= f).Within cost grant n :=
  within_perform (by rw [ho, zero_add]) hf

theorem within_last {o : Op} (ho : cost o ≤ n) : (Prog.perform o).Within cost grant n := fun _ =>
  ⟨0, by rw [add_zero]; exact ho.trans le_self_add, trivial⟩

end

variable [IsOrderedAddMonoid M] [CanonicallyOrderedAdd M]

theorem Prog.Within.bind {p : Prog Op Resp α} {f : α → Prog Op Resp β} (hp : p.Within cost grant n)
    (hf : ∀ a, (f a).Within cost grant m) : (p >>= f).Within cost grant (n + m) := by
  induction p generalizing n with
  | pure a => exact (hf a).mono le_add_self
  | op o k ih =>
    intro r
    obtain ⟨n', hle, hk⟩ := hp r
    refine ⟨n' + m, ?_, ih r hk⟩
    calc cost o + (n' + m) = cost o + n' + m := (add_assoc _ _ _).symm
      _ ≤ n + grant o r + m := by gcongr
      _ = n + m + grant o r := by rw [add_assoc, add_comm (grant o r), ← add_assoc]

theorem Prog.Within.bind_le {p : Prog Op Resp α} {f : α → Prog Op Resp β} {b : M}
    (hp : p.Within cost grant n) (hf : ∀ a, (f a).Within cost grant m) (hb : n + m ≤ b) :
    (p >>= f).Within cost grant b :=
  (hp.bind hf).mono hb

/-- Either outcome of a fallible program goes on within the same bound. -/
theorem Prog.Within.bind_except {ε : Type} {p : Prog Op Resp (Except ε α)}
    {f : Except ε α → Prog Op Resp β} (hp : p.Within cost grant n)
    (hok : ∀ a, (f (.ok a)).Within cost grant m) (herr : ∀ e, (f (.error e)).Within cost grant m) :
    (p >>= f).Within cost grant (n + m) := by
  refine hp.bind ?_
  rintro (e | a)
  · exact herr e
  · exact hok a

/-- A loop costs what its turns do. -/
theorem within_forEach {f : γ → Prog Op Resp Unit} {xs : List γ}
    (h : ∀ x ∈ xs, (f x).Within cost grant n) : (Prog.forEach f xs).Within cost grant (xs.length • n) := by
  induction xs with
  | nil => trivial
  | cons x xs ih =>
    rw [Prog.forEach_cons, List.length_cons, succ_nsmul, add_comm]
    exact (h x List.mem_cons_self).bind fun _ => ih fun y hy => h y (List.mem_cons_of_mem _ hy)

/-- Wherever a program is stopped, it has kept to its bound. -/
theorem Prog.Within.spent_le {p q : Prog Op Resp α} {tr : List (Sigma Resp)}
    (h : p.Within cost grant n) (hr : p.Replays tr q) : spent cost tr ≤ n + granted grant tr := by
  induction hr generalizing n with
  | refl => exact zero_le
  | @step o k r tr q _ ih =>
    obtain ⟨m, hle, hk⟩ := h r
    simp only [spent, granted, List.map_cons, List.sum_cons]
    calc cost o + spent cost tr ≤ cost o + (m + granted grant tr) := by gcongr; exact ih hk
      _ = cost o + m + granted grant tr := (add_assoc _ _ _).symm
      _ ≤ n + grant o r + granted grant tr := by gcongr
      _ = n + (grant o r + granted grant tr) := add_assoc _ _ _

end Async
