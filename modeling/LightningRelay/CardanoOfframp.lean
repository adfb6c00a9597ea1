import LightningRelay.CardanoSwap

/-!
# Offramp: cBTC to Lightning BTC

`cardano_offramp.rs` and `send_payment` of `payment_cmds.rs`.  The user's request creates an
offramp entry on Cardano; the user's notification of the cBTC deposit is verified and the user's
BOLT11 invoice is paid; the outcome of the payment completes the offramp or refunds it.
-/

set_option autoImplicit false

namespace LightningRelay

open Async

/-- Whether an invoice of this currency belongs to the relay's network. -/
def networkOk (isTestnetRelay : Bool) : Currency → Bool
  | .bitcoin => !isTestnetRelay
  | .bitcoinTestnet | .regtest | .signet => isTestnetRelay
  | .simnet => false

/-- The amount that a fixed-amount invoice asks for, if it is not the required one. -/
def mismatch? (invoice : Bolt11Invoice) (requiredMsat : ℕ) : Option ℕ :=
  invoice.amountMilliSatoshis.filter (· ≠ requiredMsat)

/-- Create the on-chain entry of an offramp, retrying: its id and the transaction's hash. -/
def createOfframpTx (amountCbtc : ℤ) (paymentHash refundPkh : String) (expiresAt : ℤ) :
    Relay (Except String (ℤ × String)) :=
  submitContractTxWithRetry "CreateOfframp" 3 15 do
    match ← operator .pool (.createOfframp amountCbtc paymentHash refundPkh expiresAt) with
    | .error e => pure (.error e)
    | .ok (id, tx) =>
      match ← operator .pool (.submitTx ⟨.createOfframp, tx⟩) with
      | .error e => pure (.error e)
      | .ok hash => pure (.ok (id, hash))

/-- Process an offramp request: the offramp id, the operator's address and the payment hash. -/
def requestOfframp (cfg : Config) (bolt11Str : String) (amountCbtc : ℤ) (cardanoAddress : String)
    (expiryMs : ℤ) : Relay (Except String (ℤ × String × String)) := do
  match cfg.bolt11FromStr bolt11Str with
  | .error e => pure (.error s!"invalid BOLT11 invoice: {e}")
  | .ok invoice =>
  let paymentHash := invoice.paymentHash
  match ← db (.getOfframpByPaymentHash paymentHash) with
  | some existing =>
    pure (.error s!"BOLT11 invoice already used in offramp #{existing.offrampId} (status: {existing.status.debugStr})")
  | none =>
  let isTestnetRelay := startsWith cfg.operatorAddress "addr_test"
  if !networkOk isTestnetRelay invoice.currency then
    pure (.error s!"BOLT11 invoice network ({invoice.currency.debugStr}) does not match relay network (testnet={isTestnetRelay})")
  else
  match cbtcToMsat amountCbtc with
  | none => pure (.error s!"invalid cBTC amount: {amountCbtc}")
  | some requiredMsat =>
  match mismatch? invoice requiredMsat with
  | some invAmt =>
    pure (.error s!"invoice amount {invAmt} msat does not match requested {amountCbtc} cBTC ({requiredMsat} msat)")
  | none =>
  match addressToPkh cfg cardanoAddress with
  | .error e => pure (.error e)
  | .ok refundPkh =>
  let nowMs ← currentTimestampMs
  let expiresAt := wrapI64 (nowMs + expiryMs)
  match ← createOfframpTx amountCbtc paymentHash refundPkh expiresAt with
  | .error e => pure (.error s!"failed to create offramp on Cardano: {e}")
  | .ok (offrampId, createTxHash) =>
  if ← db (.insertOfframp
      { offrampId := offrampId
        bolt11 := bolt11Str
        paymentHash := paymentHash
        amountCbtc := amountCbtc
        cbtcTxHash := ""
        status := .awaitingDeposit
        createdAt := nowMs
        lightningPreimage := none
        depositTxHash := none
        errorMessage := none
        cardanoOfframpTxHash := some createTxHash
        refundAddress := refundPkh
        expiresAt := expiresAt }) then
    pure (.ok (offrampId, cfg.operatorAddress, paymentHash))
  else panic "failed to insert offramp mapping"

/-! ## Paying the invoice -/

def outboundPaymentsFname : String := "outbound_payments"

/-- The amount that `send_payment` pays. -/
def paymentAmount : Option ℕ → Option ℕ → Except String ℕ
  | some invAmt, some reqAmt =>
    if invAmt ≠ reqAmt then
      .error s!"amount mismatch: invoice {invAmt} msat vs required {reqAmt} msat"
    else .ok invAmt
  | some invAmt, none => .ok invAmt
  | none, some reqAmt => .ok reqAmt
  | none, none => .error "amountless invoice with no required amount"

/-- Record an outbound payment and hand it to LDK. -/
def sendPayment (invoice : Bolt11Invoice) (requiredAmountMsat : Option ℕ) :
    Relay (Except String Unit) := do
  enter (.sendPayment invoice.paymentHash)
  match paymentAmount invoice.amountMilliSatoshis requiredAmountMsat with
  | .error e => pure (.error e)
  | .ok amtMsat =>
    store (.insertOutbound invoice.paymentHash
      { preimage := none
        secret := some invoice.paymentSecret
        status := .pending
        amtMsat := some amtMsat })
    persist outboundPaymentsFname
    match ← ldk (.payForBolt11Invoice invoice requiredAmountMsat) with
    | .ok _ => pure (.ok ())
    | .error e =>
      if ← store (.failOutbound invoice.paymentHash) then
        persist outboundPaymentsFname
        pure (.error s!"failed to send payment: {e}")
      else panic "called `Option::unwrap()` on a `None` value"

/-- What `process_offramp_deposit` does once the row is in PayingLightning. -/
def payOfframp (cfg : Config) (offrampId : ℤ) (mapping : OfframpMapping) :
    Relay (Except String Unit) := do
  match cfg.bolt11FromStr mapping.bolt11 with
  | .error e => pure (.error s!"failed to re-parse bolt11: {e}")
  | .ok invoice =>
  match cbtcToMsat mapping.amountCbtc with
  | none => pure (.error s!"invalid cBTC amount: {mapping.amountCbtc}")
  | some requiredMsat =>
  match ← sendPayment invoice (some requiredMsat) with
  | .ok _ => pure (.ok ())
  | .error e =>
    let msg := s!"Lightning payment initiation failed: {e}"
    db (.updateOfframpStatus offrampId .failed none none (some msg))
    pure (.error msg)

/-- Whether a deposit transaction is already claimed by another offramp. -/
def usedByOther (offrampId : ℤ) : Option OfframpMapping → Option OfframpMapping
  | some existing => if existing.offrampId ≠ offrampId then some existing else none
  | none => none

/-- Verify the user's cBTC deposit, then pay the Lightning invoice. -/
def processOfframpDeposit (cfg : Config) (offrampId : ℤ) (cbtcTxHash : String) :
    Relay (Except String Unit) := do
  match ← db (.getOfframpById offrampId) with
  | none => pure (.error s!"offramp {offrampId} not found")
  | some mapping =>
  match usedByOther offrampId (← db (.getOfframpByCbtcTx cbtcTxHash)) with
  | some existing =>
    pure (.error s!"cBTC TX {cbtcTxHash} already used by offramp #{existing.offrampId}")
  | none =>
  if ← db (.transitionOfframpStatus offrampId .awaitingDeposit .pendingVerification) then
    match ← operator (.offramp offrampId)
        (.verifyCbtcReceived cbtcTxHash mapping.amountCbtc) with
    | .error e =>
      db (.updateOfframpStatus offrampId .awaitingDeposit none none none)
      pure (.error s!"failed to verify cBTC receipt: {e}")
    | .ok false =>
      db (.updateOfframpStatus offrampId .awaitingDeposit none none
        (some "cBTC not received at operator address"))
      pure (.error s!"cBTC not found at operator address in tx {cbtcTxHash}")
    | .ok true =>
      if ← db (.transitionOfframpWithCbtcTx offrampId cbtcTxHash .pendingVerification
          .payingLightning) then
        payOfframp cfg offrampId mapping
      else
        pure (.error
          s!"offramp {offrampId} status changed during verification (concurrent request)")
  else
    pure (.error s!"offramp {offrampId} is not in AwaitingDeposit status (concurrent request or already processed)")

/-! ## The outcome of the payment -/

/-- Build and submit the FulfillOfframp transaction. -/
def fulfillOfframpTx (offrampId : ℤ) (offramp : Offramp) : Relay (Except CardanoError String) := do
  thenSubmit (.offramp offrampId) (.fulfillOfframp offramp.offrampId)
    (← operator (.offramp offrampId) (.fulfillOfframp offramp))

/-- Called from PaymentSent: deposit the cBTC to the pool. -/
def completeOfframp (paymentHash preimage : String) : Relay Unit := do
  match ← db (.getOfframpByPaymentHash paymentHash) with
  | none => pure ()
  | some mapping =>
  let offrampId := mapping.offrampId
  if ← db (.transitionOfframpStatus offrampId .payingLightning .depositingToPool) then
    db (.updateOfframpStatus offrampId .depositingToPool (some preimage) none none)
    match ← queryStateWithRetry (.offramp offrampId) 24 10 s!"Offramp #{offrampId}"
        (findOfframp offrampId) with
    | .error e =>
      db (.updateOfframpStatus offrampId .failed none none
        (some s!"failed to find on-chain offramp: {e}"))
    | .ok offramp =>
      match ← submitContractTxWithRetry s!"FulfillOfframp(#{offrampId})" 3 15
          (fulfillOfframpTx offrampId offramp) with
      | .ok txHash => db (.updateOfframpStatus offrampId .completed none (some txHash) none)
      | .error e => db (.updateOfframpStatus offrampId .failed none none (some e))
  else pure ()

/-- Submit CancelOfframp for one offramp and record it in the row. -/
def cancelOfframpOnChain (mapping : OfframpMapping) : Relay Unit := do
  let offrampId := mapping.offrampId
  match ← operator (.offramp offrampId) (.cancelOfframp offrampId) with
  | .error _ => pure ()
  | .ok signedTx =>
    match ← operator (.offramp offrampId) (.submitTx ⟨.cancelOfframp offrampId, signedTx⟩) with
    | .error _ => pure ()
    | .ok txHash =>
      let existing := ((← db (.getOfframpById offrampId)).bind (·.errorMessage)).getD ""
      let msg := if existing = "" then s!"cancelled on-chain: {txHash}"
        else s!"{existing}; cancelled on-chain: {txHash}"
      db (.updateOfframpStatus offrampId .failed none none (some msg))

/-- Send the deposit back to the refund address: the message that the row then gets. -/
def refundOfframp (mapping : OfframpMapping) : Relay String := do
  let offrampId := mapping.offrampId
  match ← operator (.offramp offrampId) (.sendCbtc mapping.refundAddress mapping.amountCbtc) with
  | .error e => pure s!"Lightning payment failed, refund build failed: {e}"
  | .ok signedTx =>
    match ← operator (.offramp offrampId) (.submitTx ⟨.sendCbtc, signedTx⟩) with
    | .error e => pure s!"Lightning payment failed, refund submit failed: {e}"
    | .ok txHash => pure s!"Lightning payment failed, cBTC refunded: {txHash}"

/-- Called from PaymentFailed: refund the deposit and cancel the on-chain entry. -/
def handleOfframpPaymentFailed (paymentHash : String) : Relay Unit := do
  match ← db (.getOfframpByPaymentHash paymentHash) with
  | none => pure ()
  | some mapping =>
    let msg ← if mapping.refundAddress ≠ "" then refundOfframp mapping
      else pure "Lightning payment failed, no refund address available"
    db (.updateOfframpStatus mapping.offrampId .failed none none (some msg))
    cancelOfframpOnChain mapping

end LightningRelay
