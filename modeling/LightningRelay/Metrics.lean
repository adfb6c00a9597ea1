import LightningRelay.Mapping
import LightningRelay.Sql.Group

/-!
# Metrics

`GET /api/metrics` reads the grouped counts of both tables and sorts the status texts into three
figures with a catch-all (`toStatusCounts`); admission control counts the same rows with a list of
texts in the statement (`countActiveSwaps`, `countActiveOfframps`).  The status column holds the
texts of `asStr`, so both agree on every table: what the metrics call pending is what admission
control counts, and the three figures add up to the number of rows.
-/

set_option autoImplicit false

namespace LightningRelay

open Sql

namespace SwapDb

/-- The statement `SELECT status, COUNT(*) FROM swap_mappings GROUP BY status`. -/
def getSwapCounts (db : SwapDb) : List (String × ℤ) :=
  db.swaps.countBy fun r => r.status.asStr

/-- The statement `SELECT status, COUNT(*) FROM offramp_mappings GROUP BY status`. -/
def getOfframpCounts (db : SwapDb) : List (String × ℤ) :=
  db.offramps.countBy fun r => r.status.asStr

/-- The statement of `count_active_swaps` compares the column with two texts. -/
theorem countActiveSwaps_eq_in (db : SwapDb) :
    db.countActiveSwaps = db.swaps.count fun r => r.status.asStr ∈ ["pending", "fulfilling"] := by
  refine congrArg Nat.cast (Table.count_congr fun r => ?_)
  cases r.status <;> decide

/-- The statement of `count_active_offramps` compares the column with four texts. -/
theorem countActiveOfframps_eq_in (db : SwapDb) :
    db.countActiveOfframps = db.offramps.count fun r => r.status.asStr ∈
      ["awaiting_deposit", "pending_verification", "paying_lightning", "depositing_to_pool"] := by
  refine congrArg Nat.cast (Table.count_congr fun r => ?_)
  cases r.status <;> decide

end SwapDb

structure StatusCounts where
  completed : ℤ
  pending : ℤ
  failed : ℤ
  total : ℤ
  deriving DecidableEq, Repr

namespace StatusCounts

/-- One pass of the loop of `to_status_counts`. -/
def add (s : StatusCounts) (group : String × ℤ) : StatusCounts :=
  if group.1 = "completed" then
    { s with total := s.total + group.2, completed := s.completed + group.2 }
  else if group.1 = "failed" ∨ group.1 = "expired" then
    { s with total := s.total + group.2, failed := s.failed + group.2 }
  else { s with total := s.total + group.2, pending := s.pending + group.2 }

end StatusCounts

def toStatusCounts (counts : List (String × ℤ)) : StatusCounts :=
  counts.foldl StatusCounts.add ⟨0, 0, 0, 0⟩

namespace StatusCounts

/-- The texts that end in the figure `completed`. -/
def completes (status : String) : Bool := status = "completed"

/-- The texts that end in the figure `failed`. -/
def fails (status : String) : Bool := status = "failed" || status = "expired"

/-- The texts of the catch-all. -/
def pends (status : String) : Bool := !completes status && !fails status

/-- The figures of the groups read so far. -/
def plus (s : StatusCounts) (counts : List (String × ℤ)) : StatusCounts where
  completed := s.completed + tally completes counts
  pending := s.pending + tally pends counts
  failed := s.failed + tally fails counts
  total := s.total + tally (fun _ => true) counts

theorem add_plus (s : StatusCounts) (group : String × ℤ) (counts : List (String × ℤ)) :
    (s.add group).plus counts = s.plus (group :: counts) := by
  obtain ⟨status, count⟩ := group
  simp only [plus, tally_cons, pends, completes, fails, add]
  by_cases hc : status = "completed"
  · subst hc
    simp [Int.add_assoc]
  · by_cases hf : status = "failed"
    · subst hf
      simp [Int.add_assoc]
    · by_cases he : status = "expired" <;> simp [hc, hf, he, Int.add_assoc]

/-- The loop leaves one tally in each figure. -/
theorem foldl_add (counts : List (String × ℤ)) :
    ∀ s : StatusCounts, counts.foldl add s = s.plus counts := by
  induction counts with
  | nil =>
    intro s
    simp [plus]
  | cons group counts ih =>
    intro s
    rw [List.foldl_cons, ih, add_plus]

/-- Every group is added to the total and to one other figure. -/
theorem foldl_add_total (counts : List (String × ℤ)) :
    ∀ s : StatusCounts, s.completed + s.pending + s.failed = s.total →
      (counts.foldl add s).completed + (counts.foldl add s).pending + (counts.foldl add s).failed =
        (counts.foldl add s).total := by
  induction counts with
  | nil => exact fun _ h => h
  | cons group counts ih =>
    intro s hs
    rw [List.foldl_cons]
    apply ih
    unfold add
    split_ifs <;> simp only <;> omega

end StatusCounts

open StatusCounts

theorem toStatusCounts_eq (counts : List (String × ℤ)) :
    toStatusCounts counts =
      ⟨tally completes counts, tally pends counts, tally fails counts,
        tally (fun _ => true) counts⟩ := by
  rw [toStatusCounts, foldl_add, plus]
  simp

theorem toStatusCounts_sum (counts : List (String × ℤ)) :
    (toStatusCounts counts).completed + (toStatusCounts counts).pending +
      (toStatusCounts counts).failed = (toStatusCounts counts).total :=
  foldl_add_total counts _ rfl

/-- The catch-all of the metrics holds the active swaps. -/
theorem pends_swap (status : SwapStatus) :
    pends status.asStr = decide (status.asStr ∈ ["pending", "fulfilling"]) := by
  cases status <;> decide

/-- The catch-all of the metrics holds the active offramps. -/
theorem pends_offramp (status : OfframpStatus) :
    pends status.asStr = decide (status.asStr ∈
      ["awaiting_deposit", "pending_verification", "paying_lightning", "depositing_to_pool"]) := by
  cases status <;> decide

section Groups

variable {ρ κ : Type} {key : ρ → κ} {t : Table key} {text : ρ → String}
  {groups : List (String × ℤ)}

/-- The pending figure of a table, with its groups in any order. -/
theorem pending_of_groups (h : groups.Perm (t.countBy text)) :
    (toStatusCounts groups).pending = t.count fun r => pends (text r) := by
  rw [toStatusCounts_eq]
  exact (tally_perm h _).trans (Table.tally_countBy t text _)

theorem total_of_groups (h : groups.Perm (t.countBy text)) :
    (toStatusCounts groups).total = t.rows.length := by
  rw [toStatusCounts_eq, ← Table.count_true t]
  exact (tally_perm h fun _ => true).trans (Table.tally_countBy t text fun _ => true)

end Groups

/-- On every database, with the groups of both statements in any order, the metrics call pending what
admission control counts, and their figures add up to the number of rows. -/
theorem metrics_agree (db : SwapDb) (swapCounts offrampCounts : List (String × ℤ))
    (hswap : swapCounts.Perm db.getSwapCounts)
    (hofframp : offrampCounts.Perm db.getOfframpCounts) :
    ((toStatusCounts swapCounts).pending = db.countActiveSwaps ∧
      (toStatusCounts swapCounts).completed + (toStatusCounts swapCounts).pending +
        (toStatusCounts swapCounts).failed = (toStatusCounts swapCounts).total ∧
      (toStatusCounts swapCounts).total = db.swaps.rows.length) ∧
    (toStatusCounts offrampCounts).pending = db.countActiveOfframps ∧
      (toStatusCounts offrampCounts).completed + (toStatusCounts offrampCounts).pending +
        (toStatusCounts offrampCounts).failed = (toStatusCounts offrampCounts).total ∧
      (toStatusCounts offrampCounts).total = db.offramps.rows.length := by
  refine ⟨⟨?_, toStatusCounts_sum _, total_of_groups hswap⟩, ?_, toStatusCounts_sum _,
    total_of_groups hofframp⟩
  · rw [pending_of_groups hswap, db.countActiveSwaps_eq_in]
    exact congrArg Nat.cast (Table.count_congr fun r => pends_swap r.status)
  · rw [pending_of_groups hofframp, db.countActiveOfframps_eq_in]
    exact congrArg Nat.cast (Table.count_congr fun r => pends_offramp r.status)

/-- Two swaps, one of them paid, and an offramp whose deposit was announced. -/
def devnetHistory : List DbCall :=
  [.insert ⟨"aa", 1, 1000, "addr_test1", .pending, 0, 100, none, none⟩,
    .insert ⟨"bb", 2, 2000, "addr_test1", .pending, 5, 105, none, none⟩,
    .transitionStatus "aa" .pending .fulfilling none,
    .updateStatus "aa" .completed (some "tx"),
    .insertOfframp
      ⟨7, "lnbc", "cc", 1000, "", .awaitingDeposit, 0, none, none, none, none, "addr_test1", 100⟩,
    .transitionOfframpWithCbtcTx 7 "dd" .awaitingDeposit .pendingVerification]

/-- The database after the calls, from the tables as they are created. -/
def devnetDb : SwapDb := devnetHistory.foldl (fun db c => (db.call c).2) .empty

theorem metrics_agree_devnet :
    (toStatusCounts [("pending", 1), ("completed", 1)]).pending = devnetDb.countActiveSwaps ∧
      (toStatusCounts [("pending_verification", 1)]).pending = devnetDb.countActiveOfframps := by
  have h := metrics_agree devnetDb [("pending", 1), ("completed", 1)] [("pending_verification", 1)]
    (by decide) (by decide)
  exact ⟨h.1.1, h.2.1⟩

end LightningRelay
