import LightningRelay.Sql.Table
import Mathlib.Algebra.BigOperators.Group.List.Lemmas
import Mathlib.Algebra.BigOperators.Ring.Finset

/-!
# Grouped counts

`SELECT f, COUNT(*) … GROUP BY f`: one pair for each value of `f` that a row has, with the number of
its rows.  SQL leaves the order of the groups open, so what is read off them is a `tally`, a sum over
the groups whose value satisfies a condition: it does not depend on the order (`tally_perm`) and
counts the rows that satisfy the condition (`tally_countBy`).
-/

set_option autoImplicit false

namespace Sql

variable {σ : Type}

/-- The rows in the groups whose value satisfies `p`. -/
def tally (p : σ → Bool) (groups : List (σ × ℤ)) : ℤ :=
  ((groups.filter fun g => p g.1).map Prod.snd).sum

@[simp] theorem tally_nil (p : σ → Bool) : tally p [] = 0 := rfl

theorem tally_cons (p : σ → Bool) (g : σ × ℤ) (groups : List (σ × ℤ)) :
    tally p (g :: groups) = (if p g.1 then g.2 else 0) + tally p groups := by
  unfold tally
  rw [List.filter_cons]
  split <;> simp

theorem tally_perm {groups groups' : List (σ × ℤ)} (h : groups.Perm groups') (p : σ → Bool) :
    tally p groups = tally p groups' :=
  ((h.filter _).map _).sum_eq

namespace Table

variable {ρ κ : Type} {key : ρ → κ}

/-- The groups of the rows by `f`, each with its size. -/
def countBy [DecidableEq σ] (t : Table key) (f : ρ → σ) : List (σ × ℤ) :=
  (t.rows.map f).dedup.map fun x => (x, ((t.rows.map f).count x : ℤ))

/-- The groups that satisfy `p` hold the rows that satisfy it. -/
theorem tally_countBy [DecidableEq σ] (t : Table key) (f : ρ → σ) (p : σ → Bool) :
    tally p (t.countBy f) = t.count fun r => p (f r) := by
  unfold tally countBy
  rw [List.filter_map, List.map_map]
  calc (((t.rows.map f).dedup.filter p).map fun x => ((t.rows.map f).count x : ℤ)).sum
      = ((((t.rows.map f).dedup.filter p).map fun x => (t.rows.map f).count x).sum : ℤ) := by
        rw [Nat.cast_list_sum, List.map_map]
        rfl
    _ = t.count fun r => p (f r) := by
        rw [List.sum_map_count_dedup_filter_eq_countP, List.countP_map]
        rfl

theorem count_true (t : Table key) : t.count (fun _ => true) = t.rows.length := by
  rw [count, List.countP_true]

theorem count_congr {t : Table key} {p q : ρ → Bool} (h : ∀ r, p r = q r) :
    t.count p = t.count q := by
  rw [funext h]

end Table

end Sql
