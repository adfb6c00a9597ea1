import LightningRelay.Devnet
import LightningRelay.Onramp.Cancelled
import LightningRelay.Payout.Cancelled

/-!
# The database follows the cancellations

Of the four places that cancel entries on Cardano, the two monitors record it in the database; the
commands `cancel-expired` and `cancel-expired-offramps` and the reconciliation at startup do not
(`devnet_cancelled_awaiting`).  `cancelled_not_active` says where the rows follow nevertheless.
-/

set_option autoImplicit false

namespace LightningRelay

open Async

/-- The condition under which the database follows the cancellations. -/
def follows (s : Sys) (a : Act) : Bool := Onramp.followsSwaps s a && Payout.followsOfframps s a

/-- In every run that meets the condition, a CancelInvoice transaction that was accepted leaves no
Pending swap, and a CancelOfframp transaction that was accepted leaves no offramp that awaits its
deposit, once the task that submitted it is over. -/
theorem cancelled_not_active {cfg : Config} {now : ℤ} {s : Sys} {e : Entry}
    (hs : ReachableBy cfg now (fun s a => follows s a = true) s) (he : e ∈ s.world.log)
    (hover : finished s e.tid = true) :
    (∀ id, e.invoiceCancelled? = some id → ∀ h r, s.world.swap h = some r → r.invoiceId = id →
      r.status ≠ .pending) ∧
    ∀ id, e.offrampCancelled? = some id → ∀ r, s.world.offramp id = some r →
      r.status ≠ .awaitingDeposit := by
  constructor
  · intro id hid
    have hswaps := hs.mono fun _ _ hok => (Bool.and_eq_true_iff.1 hok).1
    exact Onramp.noPending_iff.1 (Onramp.noPending_of_cancelled hswaps he hid hover)
  · intro id hid r hr
    have hofframps := hs.mono fun _ _ hok => (Bool.and_eq_true_iff.1 hok).2
    have hterminal := Payout.terminal_of_cancelled hofframps he hid hover
    rcases Payout.terminal_iff.1 hterminal r hr with hst | hst <;> rw [hst] <;> exact nofun

/-- A swap and an offramp expire, and the monitors cancel them. -/
def monitoredRun : List Act :=
  Devnet.boot ++ Devnet.swapRequest 3 1 ++ Devnet.offrampRequest 4 1 Devnet.invoice2 ++
    .env (.tick 3600001) :: Devnet.steps 1 7 Devnet.ok ++ Devnet.steps 2 8 Devnet.ok

set_option maxRecDepth 100000 in
/-- The monitors have recorded what they cancelled. -/
theorem cancelled_not_active_monitored : ∃ s e e' r r',
    ReachableBy Devnet.config Devnet.startTime (fun s a => follows s a = true) s ∧
    e ∈ s.world.log ∧ e.invoiceCancelled? = some 1 ∧ finished s e.tid = true ∧
    e' ∈ s.world.log ∧ e'.offrampCancelled? = some 1 ∧ finished s e'.tid = true ∧
    s.world.swap Devnet.invoice1.paymentHash = some r ∧ r.invoiceId = 1 ∧ r.status ≠ .pending ∧
    s.world.offramp 1 = some r' ∧ r'.status ≠ .awaitingDeposit := by
  obtain ⟨s, hs, hp⟩ := Devnet.reachableBy_of_after follows monitoredRun (fun s =>
    (s.world.log.any fun e => e.invoiceCancelled? = some 1 && finished s e.tid) &&
    (s.world.log.any fun e => e.offrampCancelled? = some 1 && finished s e.tid) &&
    ((s.world.swap Devnet.invoice1.paymentHash).any fun r => r.invoiceId = 1) &&
    (s.world.offramp 1).isSome) (by decide +kernel)
  simp only [Bool.and_eq_true, List.any_eq_true, Option.any_eq_true, decide_eq_true_eq,
    Option.isSome_iff_exists] at hp
  obtain ⟨⟨⟨⟨e, he, hid, hover⟩, e', he', hid', hover'⟩, r, hr, hrid⟩, r', hr'⟩ := hp
  exact ⟨s, e, e', r, r', hs, he, hid, hover, he', hid', hover', hr, hrid,
    (cancelled_not_active hs he hover).1 1 hid _ r hr hrid, hr',
    (cancelled_not_active hs he' hover').2 1 hid' r' hr'⟩

/-- The first offramp expires, and the operator cancels it with `cancel-expired-offramps`. -/
def commandRun : List Act :=
  Devnet.boot ++ Devnet.offrampRequest 3 1 Devnet.invoice1 ++
    .env (.tick 3600001) :: .env (.request .cancelExpiredOfframps) ::
    Devnet.steps 4 6 (Devnet.answers 1 "h" Devnet.pool1)

set_option maxRecDepth 100000 in
/-- The command has cancelled the offramp and has ended, and the row still awaits its deposit. -/
theorem devnet_cancelled_awaiting : ∃ s, Reachable Devnet.config Devnet.startTime s ∧
    (∃ e ∈ s.world.log, e.offrampCancelled? = some 1 ∧ finished s e.tid = true) ∧
    ∃ r, s.world.offramp 1 = some r ∧ r.status = .awaitingDeposit := by
  obtain ⟨s, hs, hp⟩ := Devnet.reachable_of_after commandRun (fun s =>
    (s.world.log.any fun e => e.offrampCancelled? = some 1 && finished s e.tid) &&
    (s.world.offramp 1).any fun r => r.status = .awaitingDeposit) (by decide +kernel)
  simp only [Bool.and_eq_true, List.any_eq_true, Option.any_eq_true, decide_eq_true_eq] at hp
  obtain ⟨⟨e, he, hid, hover⟩, hrow⟩ := hp
  exact ⟨s, hs, ⟨e, he, hid, hover⟩, hrow⟩

end LightningRelay
