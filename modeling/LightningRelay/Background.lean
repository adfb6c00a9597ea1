import LightningRelay.CardanoOfframp

/-!
# Background loops and operator commands

The expiry monitors of `background.rs` and the commands `cardano-withdraw`, `cancel-expired` and
`cancel-expired-offramps` of `cardano_cmds.rs`.  A monitor is an endless loop; one task is one turn
of it, and its last operation starts the next turn.
-/

set_option autoImplicit false

namespace LightningRelay

open Async

/-- One expired swap of the monitor's snapshot. -/
def cancelExpiredSwap (mapping : SwapMapping) : Relay Unit := do
  let about := About.swap mapping.paymentHash
  match ← operator about (.cancelInvoice mapping.invoiceId) with
  | .error _ => pure ()
  | .ok signedTx =>
    match ← operator about (.submitTx ⟨.cancelInvoice mapping.invoiceId, signedTx⟩) with
    | .ok txHash => db (.updateStatus mapping.paymentHash .expired (some txHash))
    | .error _ => pure ()

def monitorExpiredSwaps : Relay Unit := do
  sleep 60
  let nowMs ← currentTimestampMs
  let expired ← db (.getExpiredPending nowMs)
  Prog.forEach cancelExpiredSwap expired
  spawn .monitorExpiredSwaps

def monitorExpiredOfframps : Relay Unit := do
  sleep 60
  let nowMs ← currentTimestampMs
  let expired ← db (.getExpiredOfframps nowMs)
  Prog.forEach cancelOfframpOnChain expired
  spawn .monitorExpiredOfframps

/-! ## The commands -/

def retryAttempts : ℕ := 3

def retryDelay : ℕ := 15

/-- Withdraw cBTC from the pool: the line that the command prints. -/
def cardanoWithdraw (amount : ℤ) : Relay String := do
  match ← submitContractTxWithRetry s!"Withdraw({amount})" retryAttempts retryDelay do
      thenSubmit .pool .withdraw (← operator .pool (.withdraw amount)) with
  | .ok txHash => pure s!"SUCCESS: withdraw submitted, tx_hash: {txHash}"
  | .error e => pure s!"ERROR: {e}"

def seqCancelDelay : ℕ := 30

/-- The time budget of one command, in milliseconds. -/
def cancelBudget : ℤ := 180000

/-- Cancel the entries one after the other until the budget is used up, waiting after each success
so that the next transaction builds on fresh state. -/
def cancelSequentially (cancel : ℤ → Relay (Except String String)) (start : ℤ) :
    List ℤ → Bool → Relay Unit
  | [], _ => pure ()
  | id :: ids, lastOk => do
    if (← currentTimestampMs) - start > cancelBudget then pure ()
    else do
      if lastOk then sleep seqCancelDelay
      match ← cancel id with
      | .ok _ => cancelSequentially cancel start ids true
      | .error _ => cancelSequentially cancel start ids false

/-- Build and submit the CancelOfframp transaction of an on-chain entry, with retries. -/
def cancelOfframpEntry (offrampId : ℤ) : Relay (Except String String) :=
  submitContractTxWithRetry s!"CancelOfframp(#{offrampId})" retryAttempts retryDelay do
    thenSubmit .pool (.cancelOfframp offrampId) (← operator .pool (.cancelOfframp offrampId))

/-- Build and submit the CancelInvoice transaction of an on-chain entry, with retries. -/
def cancelInvoiceEntry (invoiceId : ℤ) : Relay (Except String String) :=
  submitContractTxWithRetry s!"CancelInvoice(#{invoiceId})" retryAttempts retryDelay do
    thenSubmit .pool (.cancelInvoice invoiceId) (← operator .pool (.cancelInvoice invoiceId))

def cancelExpiredOfframps : Relay Unit := do
  match ← operator .pool .queryState with
  | .error _ => pure ()
  | .ok state =>
    let nowMs ← currentTimestampMs
    let expired := state.offramps.filter fun o => o.expiresAt < nowMs
    let start ← currentTimestampMs
    cancelSequentially cancelOfframpEntry start (expired.map (·.offrampId)) false

def cancelExpired : Relay Unit := do
  match ← operator .pool .queryState with
  | .error _ => pure ()
  | .ok state =>
    let nowMs ← currentTimestampMs
    let expired := state.invoices.filter fun i => i.expiresAt < nowMs
    let start ← currentTimestampMs
    cancelSequentially cancelInvoiceEntry start (expired.map (·.invoiceId)) false

/-! ### What the commands do

They call the operator on behalf of no row, read the clock and sleep. -/

section

variable {P : Op → Prop}

theorem only_cancelSequentially {cancel : ℤ → Relay (Except String String)} (hnow : P .now)
    (hsleep : ∀ n, P (.sleep n)) (h : ∀ id, (cancel id).Only P) (start : ℤ) (ids : List ℤ)
    (lastOk : Bool) : (cancelSequentially cancel start ids lastOk).Only P := by
  induction ids generalizing lastOk with
  | nil => trivial
  | cons id ids ih =>
    have hrest : (cancel id >>= fun x =>
        match x with
        | .ok _ => cancelSequentially cancel start ids true
        | .error _ => cancelSequentially cancel start ids false).Only P :=
      (h id).bind fun x => by
        rcases x with e | tx
        · exact ih false
        · exact ih true
    refine only_perform hnow fun now => ?_
    dsimp only
    split_ifs
    · trivial
    · exact only_perform (hsleep _) fun _ => hrest
    · exact hrest

theorem only_cancelExpired (hquery : P (.operator .pool .queryState))
    (hbuild : ∀ id, P (.operator .pool (.cancelInvoice id)))
    (hsubmit : ∀ id hex, P (.operator .pool (.submitTx ⟨.cancelInvoice id, hex⟩))) (hnow : P .now)
    (hsleep : ∀ n, P (.sleep n)) : cancelExpired.Only P := by
  refine only_perform hquery ?_
  rintro (e | state)
  · trivial
  refine only_perform hnow fun now => only_perform hnow fun start => ?_
  refine only_cancelSequentially hnow hsleep (fun id => ?_) _ _ _
  refine only_submitContractTxWithRetry hsleep ?_
  exact only_perform (hbuild id) fun r => only_thenSubmit r (hsubmit id)

theorem only_cancelExpiredOfframps (hquery : P (.operator .pool .queryState))
    (hbuild : ∀ id, P (.operator .pool (.cancelOfframp id)))
    (hsubmit : ∀ id hex, P (.operator .pool (.submitTx ⟨.cancelOfframp id, hex⟩))) (hnow : P .now)
    (hsleep : ∀ n, P (.sleep n)) : cancelExpiredOfframps.Only P := by
  refine only_perform hquery ?_
  rintro (e | state)
  · trivial
  refine only_perform hnow fun now => only_perform hnow fun start => ?_
  refine only_cancelSequentially hnow hsleep (fun id => ?_) _ _ _
  refine only_submitContractTxWithRetry hsleep ?_
  exact only_perform (hbuild id) fun r => only_thenSubmit r (hsubmit id)

end

end LightningRelay
