import LightningRelay.Async.Onward
import LightningRelay.Payout.Custody

/-!
# The history of an offramp

What two readings of the same row may show, however far apart they are in a run.  The statuses of an
offramp do not only go forward, since most writes are unguarded; its phase does.  An offramp is opened
until a deposit is stored for it, then its Lightning payment is under way, and then it is settling,
and it never goes back.  Each status belongs to certain phases only, the columns of the request never
change, and nothing that was recorded is erased.

* `becomes_step`: one step; `becomes_of_onward`: any number of them.
* `offramp_history`: any stretch of any run.
-/

set_option autoImplicit false

namespace LightningRelay

open Async

/-- How far an offramp has got: no deposit is stored for it, its Lightning payment is under way, or
the payment is over. -/
inductive OfframpPhase where
  | opened
  | paying
  | settling
  deriving DecidableEq, Repr

namespace OfframpPhase

/-- The order of the phases. -/
def rank : OfframpPhase → ℕ
  | .opened => 0
  | .paying => 1
  | .settling => 2

/-- The statuses in which an offramp may be. -/
def statuses : OfframpPhase → List OfframpStatus
  | .opened => [.awaitingDeposit, .pendingVerification, .failed]
  | .paying => [.payingLightning]
  | .settling => [.depositingToPool, .completed, .failed]

end OfframpPhase

def OfframpMapping.phase (m : OfframpMapping) : OfframpPhase :=
  if m.cbtcTxHash = "" then .opened
  else if m.status = .payingLightning then .paying
  else .settling

namespace Payout

/-- What a row may become: the columns of the request stay, a stored deposit is never replaced, what
was recorded is never erased, and the phase never goes back. -/
structure Becomes (x y : OfframpMapping) : Prop where
  request : y = { x with
    cbtcTxHash := y.cbtcTxHash, status := y.status, lightningPreimage := y.lightningPreimage,
    depositTxHash := y.depositTxHash, errorMessage := y.errorMessage }
  deposit : x.cbtcTxHash ≠ "" → y.cbtcTxHash = x.cbtcTxHash
  preimage : x.lightningPreimage.isSome → y.lightningPreimage.isSome
  poolDeposit : x.depositTxHash.isSome → y.depositTxHash.isSome
  error : x.errorMessage.isSome → y.errorMessage.isSome
  phase : x.phase.rank ≤ y.phase.rank

theorem Becomes.refl (x : OfframpMapping) : Becomes x x :=
  ⟨rfl, fun _ => rfl, id, id, id, Nat.le_refl _⟩

theorem Becomes.trans {x y z : OfframpMapping} (h : Becomes x y) (h' : Becomes y z) :
    Becomes x z where
  request := by
    rw [h'.request, h.request]
  deposit hx := by
    have hy := h.deposit hx
    exact (h'.deposit (hy ▸ hx)).trans hy
  preimage hx := h'.preimage (h.preimage hx)
  poolDeposit hx := h'.poolDeposit (h.poolDeposit hx)
  error hx := h'.error (h.error hx)
  phase := Nat.le_trans h.phase h'.phase

/-- The statuses of a row that keeps to the ledger are those of its phase. -/
theorem status_mem_statuses {w : World} {id : ℤ} (hL : Ledger w id) {x : OfframpMapping}
    (hx : w.offramp id = some x) : x.status ∈ x.phase.statuses := by
  have hearly := hL.early x hx
  have hlate := hL.late x hx
  unfold OfframpMapping.phase
  split_ifs with hhash hst
  · cases h : x.status <;> simp [h, hhash] at hlate <;> simp [OfframpPhase.statuses]
  · simp [hst, OfframpPhase.statuses]
  · cases h : x.status <;> simp [h, hhash] at hearly hst <;> simp [OfframpPhase.statuses]

section

variable {cfg : Config} {tid : ℕ} {c : Call} {l l' : Stage} {o : Op} {r : o.Resp} {w w' : World}
  {sp : Option Call} {id : ℤ} {x y : OfframpMapping}

/-- No write starts a payment without a new deposit. -/
theorem Writes.ne_payingLightning {st st' : OfframpStatus} (h : Writes id c l l' st st') :
    st' ≠ .payingLightning := by
  cases h with
  | advance _ hst => rcases hst with rfl | rfl <;> exact nofun
  | _ => exact nofun

/-- The phase of an offramp does not go back in a move. -/
theorem phase_move (he : Effect tid c o r w w' sp) (hm : Move cfg c l o r l') (hL : Ledger w id)
    (hx : w.offramp id = some x) (hy : w'.offramp id = some y) : x.phase.rank ≤ y.phase.rank := by
  have hrow := rowMove he hm id
  rw [hx, hy] at hrow
  cases hrow with
  | same => exact Nat.le_refl _
  | write _ hhash hw =>
    have hne := hw.ne_payingLightning
    simp only [OfframpMapping.phase, hhash, if_neg hne]
    split_ifs <;> simp [OfframpPhase.rank]
  | record _ _ hst =>
    -- a deposit is stored only for a row that has none
    have hopen : x.cbtcTxHash = "" := hL.early x hx (Or.inr hst)
    simp [OfframpMapping.phase, hopen, OfframpPhase.rank]

/-- What a statement leaves of the columns. -/
theorem becomes_move (he : Effect tid c o r w w' sp) (hm : Move cfg c l o r l') (hL : Ledger w id)
    (hx : w.offramp id = some x) : ∃ y, w'.offramp id = some y ∧ Becomes x y := by
  obtain ⟨y, hy, hcases⟩ := he.offramp_cases hx
  have hphase := phase_move he hm hL hx hy
  refine ⟨y, hy, ?_⟩
  rcases hcases with rfl | ⟨st, p, d, e, -, rfl⟩ | ⟨n, -, rfl⟩ | ⟨tx, n, rfl, rfl⟩
  · exact .refl y
  · refine ⟨rfl, fun _ => rfl, fun h => ?_, fun h => ?_, fun h => ?_, hphase⟩ <;>
      simp only [SwapDb.coalesce, Option.isSome_or, h, Bool.or_true]
  · exact ⟨rfl, fun _ => rfl, fun h => h, fun h => h, fun h => h, hphase⟩
  · refine ⟨rfl, fun hne => ?_, fun h => h, fun h => h, fun h => h, hphase⟩
    have hstored := stored_mono he hm hL ⟨x, hx, rfl, hne⟩
    obtain ⟨z, hz, htx, -⟩ := hstored
    rw [hy] at hz
    exact Option.some.inj hz ▸ htx

end

/-- One step of a run. -/
theorem becomes_step {cfg : Config} {now : ℤ} {s s' : Sys} {a : Act} (hs : Reachable cfg now s)
    (hstep : (relay cfg).step s a = some s') {id : ℤ} {x : OfframpMapping}
    (hx : s.world.offramp id = some x) : ∃ y, s'.world.offramp id = some y ∧ Becomes x y := by
  obtain ⟨L, hL⟩ := (custody_sound cfg now).holds hs
  rcases world_of_step hstep with ⟨tid, c, o, k, a, r, sp, -, ht, hp⟩ | hcalm
  · obtain ⟨l', hm, -⟩ := (hL.keeps ht).move r
    exact becomes_move (effect_of_perform hp) hm (hL.shared id) hx
  · exact ⟨x, (hcalm.offramp id).trans hx, .refl x⟩

/-- The statuses of a row in a state of a run are those of its phase. -/
theorem status_of_phase {cfg : Config} {now : ℤ} {s : Sys} (hs : Reachable cfg now s) {id : ℤ}
    {x : OfframpMapping} (hx : s.world.offramp id = some x) : x.status ∈ x.phase.statuses := by
  obtain ⟨L, hL⟩ := (custody_sound cfg now).holds hs
  exact status_mem_statuses (hL.shared id) hx

/-- Any stretch of a run. -/
theorem becomes_of_onward {cfg : Config} {now : ℤ} {s s' : Sys} (hs : Reachable cfg now s)
    (hon : (relay cfg).Onward (fun _ _ => True) s s') {id : ℤ} {x : OfframpMapping}
    (hx : s.world.offramp id = some x) : ∃ y, s'.world.offramp id = some y ∧ Becomes x y := by
  refine hon.keep (P := fun s => ∃ y, s.world.offramp id = some y ∧ Becomes x y) hs
    ⟨x, hx, .refl x⟩ ?_
  rintro s₁ s₂ a hs₁ - hstep ⟨y, hy, hxy⟩
  obtain ⟨z, hz, hyz⟩ := becomes_step hs₁ hstep hy
  exact ⟨z, hz, hxy.trans hyz⟩

/-- In any stretch of any run, through crashes and recovery: an offramp keeps the columns of its
request, a stored deposit, and every record of a preimage, a pool deposit or an error; its phase does
not go back, and its status is always one of its phase. -/
theorem offramp_history {cfg : Config} {now : ℤ} {s s' : Sys} (hs : Reachable cfg now s)
    (hon : (relay cfg).Onward (fun _ _ => True) s s') {id : ℤ} {x : OfframpMapping}
    (hx : s.world.offramp id = some x) : ∃ y, s'.world.offramp id = some y ∧ Becomes x y ∧
      x.status ∈ x.phase.statuses ∧ y.status ∈ y.phase.statuses := by
  obtain ⟨y, hy, hxy⟩ := becomes_of_onward hs hon hx
  exact ⟨y, hy, hxy, status_of_phase hs hx, status_of_phase (hs.onward hon) hy⟩

set_option maxRecDepth 100000 in
/-- The first offramp of the devnet, read while its invoice is paid and after its completion. -/
theorem offramp_history_completed : ∃ s s' x y, Reachable Devnet.config Devnet.startTime s ∧
    (relay Devnet.config).Onward (fun _ _ => True) s s' ∧ s.world.offramp 1 = some x ∧
    x.status = .payingLightning ∧ s'.world.offramp 1 = some y ∧ y.status = .completed ∧
    Becomes x y := by
  obtain ⟨s, s', hs, hon, hp⟩ := Devnet.onward_of_after Devnet.paidRun
    (Devnet.completedRun.drop Devnet.paidRun.length)
    (fun s s' => ((s.world.offramp 1).any fun x => x.status = .payingLightning) &&
      (s'.world.offramp 1).any fun y => y.status = .completed) (by decide +kernel)
  simp only [Bool.and_eq_true, Option.any_eq_true, decide_eq_true_eq] at hp
  obtain ⟨⟨x, hx, hxst⟩, y, hy, hyst⟩ := hp
  obtain ⟨z, hz, hbecomes, -⟩ := offramp_history hs hon hx
  obtain rfl : z = y := Option.some.inj (hz.symm.trans hy)
  exact ⟨s, s', x, z, hs, hon, hx, hxst, hy, hyst, hbecomes⟩

end Payout

end LightningRelay
