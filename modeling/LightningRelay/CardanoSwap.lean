import LightningRelay.Helpers

/-!
# Onramp: Lightning BTC to cBTC

`cardano_swap.rs`: a swap request creates an LM invoice on Cardano; when the Lightning payment of
the swap is claimed, the invoice is fulfilled.
-/

set_option autoImplicit false

namespace LightningRelay

open Async

def swapPrefix : String := "cBTC_SWAP:"

/-- Validate a Cardano address, check the network's human-readable part, and extract the payment
key hash: bytes 1 to 28 of the payload. -/
def validateAddress (cfg : Config) (address : String) (expectedPrefix : Option String) :
    Except String String :=
  match cfg.bech32Decode address with
  | .error e => .error s!"invalid bech32 address: {e}"
  | .ok (hrp, data5) =>
    if !startsWith hrp "addr" then .error s!"not a Cardano address (hrp: {hrp})"
    else
      match expectedPrefix.filter fun p => !startsWith hrp p with
      | some p => .error s!"address network mismatch: expected {p} prefix, got {hrp}"
      | none =>
        match cfg.fromBase32 data5 with
        | .error e => .error s!"bech32 base32 decode failed: {e}"
        | .ok data =>
          if data.length < 29 then .error s!"address too short: {data.length} bytes"
          else if data.length ≠ 57 && data.length ≠ 29 then
            .error s!"unexpected address length: {data.length} bytes (expected 29 for enterprise or 57 for base address)"
          else .ok (hexEncode ((data.drop 1).take 28))

def addressToPkh (cfg : Config) (address : String) : Except String String :=
  validateAddress cfg address none

/-- Create an LM invoice on Cardano: its id, the BOLT11 description and the transaction's hash. -/
def requestSwap (cfg : Config) (amountCbtc : ℤ) (cardanoAddress : String) (expiryMs : ℤ) :
    Relay (Except String (ℤ × String × String)) := do
  let expectedPrefix := if startsWith cfg.operatorAddress "addr_test" then "addr_test" else "addr"
  match validateAddress cfg cardanoAddress (some expectedPrefix) with
  | .error e => pure (.error e)
  | .ok ownerPkh =>
    let nowMs ← currentTimestampMs
    let expiresAt := wrapI64 (nowMs + expiryMs)
    let created ← submitContractTxWithRetry "CreateInvoice" 3 15 do
      match ← operator .pool (.createInvoice amountCbtc ownerPkh nowMs expiresAt) with
      | .error e => pure (.error e)
      | .ok (id, tx) =>
        match ← operator .pool (.submitTx ⟨.createInvoice, tx⟩) with
        | .error e => pure (.error e)
        | .ok hash => pure (.ok (id, hash))
    match created with
    | .error e => pure (.error s!"failed to create invoice on Cardano: {e}")
    | .ok (invoiceId, txHash) => pure (.ok (invoiceId, swapPrefix ++ cardanoAddress, txHash))

/-- Creating the invoice touches no row. -/
theorem only_requestSwap {P : Op → Prop} {amountCbtc : ℤ}
    (hcreate : ∀ ownerPkh nowMs expiresAt,
      P (.operator .pool (.createInvoice amountCbtc ownerPkh nowMs expiresAt)))
    (hsubmit : ∀ tx, P (.operator .pool (.submitTx ⟨.createInvoice, tx⟩))) (hnow : P .now)
    (hsleep : ∀ n, P (.sleep n)) (cfg : Config) (cardanoAddress : String) (expiryMs : ℤ) :
    (requestSwap cfg amountCbtc cardanoAddress expiryMs).Only P := by
  unfold requestSwap
  dsimp only
  rcases validateAddress cfg cardanoAddress _ with e | ownerPkh
  · trivial
  refine only_perform hnow fun now => (only_submitContractTxWithRetry hsleep ?_).bind ?_
  · refine only_perform (hcreate ..) ?_
    rintro (e | ⟨id, tx⟩)
    · trivial
    refine only_perform (hsubmit _) ?_
    rintro (e | hash) <;> trivial
  · rintro (e | ⟨id, hash⟩) <;> trivial

/-- Store the row of a swap once its BOLT11 invoice exists. -/
def storeSwapMapping (paymentHash : String) (invoiceId amountCbtc : ℤ) (cardanoAddress : String)
    (expiresAt : ℤ) (createTxHash : String) : Relay Unit := do
  let createdAt ← currentTimestampMs
  if ← db (.insert
      { paymentHash := paymentHash
        invoiceId := invoiceId
        amountCbtc := amountCbtc
        cardanoAddress := cardanoAddress
        status := .pending
        createdAt := createdAt
        expiresAt := expiresAt
        cardanoTxHash := none
        createTxHash := some createTxHash }) then pure ()
  else panic "failed to insert swap mapping"

/-- Build and submit the FulfillInvoice transaction of a swap. -/
def fulfillInvoiceTx (paymentHash : String) (invoice : Invoice) (cardanoAddress : String) :
    Relay (Except CardanoError String) := do
  thenSubmit (.swap paymentHash) (.fulfillInvoice invoice.invoiceId)
    (← operator (.swap paymentHash) (.fulfillInvoice invoice cardanoAddress))

/-- Fulfill a swap after its Lightning payment was claimed. -/
def fulfillSwap (paymentHash : String) : Relay Unit := do
  match ← db (.getByPaymentHash paymentHash) with
  | none => pure ()
  | some mapping =>
    -- only the task that wins this transition goes on
    if ← db (.transitionStatus paymentHash .pending .fulfilling none) then
      if (← currentTimestampMs) > mapping.expiresAt then
        db (.updateStatus paymentHash .failed none)
      else
        match ← queryStateWithRetry (.swap paymentHash) 24 10 s!"LM invoice #{mapping.invoiceId}"
            (findInvoice mapping.invoiceId) with
        | .error _ => db (.updateStatus paymentHash .failed none)
        | .ok invoice =>
          let logPrefix := String.ofList (paymentHash.toList.take 16)
          match ← submitContractTxWithRetry s!"FulfillInvoice({logPrefix})" 3 15
              (fulfillInvoiceTx paymentHash invoice mapping.cardanoAddress) with
          | .ok txHash => db (.updateStatus paymentHash .completed (some txHash))
          | .error _ => db (.updateStatus paymentHash .failed none)
    else pure ()

theorem only_fulfillSwap {P : Op → Prop} {h : String} (hnow : P .now) (hsleep : ∀ n, P (.sleep n))
    (hget : P (.db (.getByPaymentHash h)))
    (hclaim : P (.db (.transitionStatus h .pending .fulfilling none)))
    (hquery : P (.operator (.swap h) .queryState))
    (hbuild : ∀ invoice address, P (.operator (.swap h) (.fulfillInvoice invoice address)))
    (hsubmit : ∀ id hex, P (.operator (.swap h) (.submitTx ⟨.fulfillInvoice id, hex⟩)))
    (hfail : P (.db (.updateStatus h .failed none)))
    (hdone : ∀ tx, P (.db (.updateStatus h .completed (some tx)))) : (fulfillSwap h).Only P := by
  refine only_perform hget ?_
  rintro (_ | mapping)
  · trivial
  refine only_perform hclaim ?_
  rintro (_ | _)
  · trivial
  refine only_perform hnow fun now => ?_
  dsimp only
  split_ifs
  · exact only_last hfail
  refine (only_queryStateWithRetry hsleep hquery).bind ?_
  rintro (e | invoice)
  · exact only_last hfail
  refine (only_submitContractTxWithRetry hsleep ?_).bind ?_
  · exact only_perform (hbuild invoice mapping.cardanoAddress) fun r =>
      only_thenSubmit r (hsubmit invoice.invoiceId)
  · rintro (e | txHash)
    · exact only_last hfail
    · exact only_last (hdone txHash)

end LightningRelay
