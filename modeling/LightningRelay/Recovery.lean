import LightningRelay.CardanoOfframp

/-!
# Crash recovery

`recovery.rs`: at startup, rows left in the middle of a step are retried or reset.
-/

set_option autoImplicit false

namespace LightningRelay

open Async

/-- One row that was left with its last transaction open: look for its entry on chain, build and
submit the transaction again, and complete the row. An error of the query loop is taken to mean that
the entry is gone because the transaction went through. -/
def recoverEntry {α : Type} (about : About) (context : String) (find : ContractState → Option α)
    (build : α → OperatorCall) (sign : (x : α) → (build x).Val → SignedTx)
    (complete : Option String → Relay Unit) : Relay Unit := do
  match ← queryStateWithRetry about 3 5 context find with
  | .error _ => complete none
  | .ok entry =>
    match ← operator about (build entry) with
    | .error _ => pure ()
    | .ok signedTx =>
      match ← operator about (.submitTx (sign entry signedTx)) with
      | .ok txHash => complete (some txHash)
      | .error _ => pure ()

/-- One swap that was left in Fulfilling. -/
def recoverSwap (mapping : SwapMapping) : Relay Unit :=
  recoverEntry (.swap mapping.paymentHash) s!"recovery invoice #{mapping.invoiceId}"
    (findInvoice mapping.invoiceId)
    (fun invoice => .fulfillInvoice invoice mapping.cardanoAddress)
    (fun invoice signedTx => ⟨.fulfillInvoice invoice.invoiceId, signedTx⟩)
    (fun txHash => db (.updateStatus mapping.paymentHash .completed txHash))

def recoverFulfillingSwaps : Relay Unit := do
  let stuck ← db (.getByStatus .fulfilling)
  Prog.forEach recoverSwap stuck

/-- A deposit whose verification was cut off may be announced again. -/
def resetVerifying (mapping : OfframpMapping) : Relay Unit := do
  let _ ← db (.transitionOfframpStatus mapping.offrampId .pendingVerification .awaitingDeposit)

/-- A payment that may or may not have been sent is marked failed. -/
def failPaying (mapping : OfframpMapping) : Relay Unit := do
  if ← db (.transitionOfframpStatus mapping.offrampId .payingLightning .failed) then
    db (.updateOfframpStatus mapping.offrampId .failed none none
      (some "relay crashed during Lightning payment, awaiting expiry for on-chain cancel"))
  else pure ()

/-- One offramp that was left in DepositingToPool; the hash of its transaction is not stored. -/
def recoverDepositing (mapping : OfframpMapping) : Relay Unit :=
  recoverEntry (.offramp mapping.offrampId) s!"recovery offramp #{mapping.offrampId}"
    (findOfframp mapping.offrampId)
    (fun offramp => .fulfillOfframp offramp)
    (fun offramp signedTx => ⟨.fulfillOfframp offramp.offrampId, signedTx⟩)
    (fun _ => db (.updateOfframpStatus mapping.offrampId .completed none none none))

def recoverDepositingOfframps : Relay Unit := do
  let verifying ← db (.getOfframpsByStatus .pendingVerification)
  Prog.forEach resetVerifying verifying
  let paying ← db (.getOfframpsByStatus .payingLightning)
  Prog.forEach failPaying paying
  let stuck ← db (.getOfframpsByStatus .depositingToPool)
  Prog.forEach recoverDepositing stuck

end LightningRelay
