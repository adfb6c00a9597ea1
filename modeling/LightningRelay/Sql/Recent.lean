import LightningRelay.Sql.Table
import Mathlib.Data.List.Sort
import Mathlib.Data.Int.Order.Basic

/-!
# The newest rows

`SELECT … ORDER BY f DESC LIMIT n`: the first `n` rows when the rows are sorted by `f`, largest first.
SQL leaves the order of rows with equal values open; here they stand in scan order.
-/

set_option autoImplicit false

namespace Sql

namespace Table

variable {ρ κ : Type} {key : ρ → κ}

/-- The first `limit` rows by `f`, largest first. -/
def recent (t : Table key) (f : ρ → ℤ) (limit : ℕ) : List ρ :=
  (t.rows.insertionSort fun r r' => f r' ≤ f r).take limit

/-- A row that is left out is older than `limit` others, or as old. -/
theorem mem_recent_or_le_count {t : Table key} (f : ρ → ℤ) (limit : ℕ) {r : ρ} (h : r ∈ t.rows) :
    r ∈ t.recent f limit ∨ limit ≤ t.count fun r' => f r ≤ f r' := by
  have hsorted : (t.rows.insertionSort fun r r' => f r' ≤ f r).Pairwise fun r r' => f r' ≤ f r :=
    List.pairwise_insertionSort _ _
  have hmem := (List.mem_insertionSort fun r r' => f r' ≤ f r).2 h
  rw [← List.take_append_drop limit (t.rows.insertionSort _)] at hsorted hmem
  rcases List.mem_append.1 hmem with hmem | hdrop
  · exact Or.inl hmem
  right
  have hbefore := (List.pairwise_append.1 hsorted).2.2
  have hlen : ((t.rows.insertionSort fun r r' => f r' ≤ f r).take limit).length = limit := by
    have hpos := List.length_pos_of_mem hdrop
    rw [List.length_drop] at hpos
    rw [List.length_take]
    omega
  calc limit = ((t.rows.insertionSort fun r r' => f r' ≤ f r).take limit).countP
        fun r' => f r ≤ f r' := by
        rw [List.countP_eq_length.2 fun r' hr' => decide_eq_true (hbefore r' hr' r hdrop), hlen]
    _ ≤ (t.rows.insertionSort fun r r' => f r' ≤ f r).countP fun r' => f r ≤ f r' :=
        (List.take_sublist _ _).countP_le
    _ = t.count fun r' => f r ≤ f r' := (List.perm_insertionSort _ _).countP_eq _

end Table

end Sql
