import LightningRelay.CardanoOfframp

/-!
# LDK events

The parts of `handle_ldk_events` in `events.rs` that concern swaps.  The handlers of the Cardano
side are spawned, so an event is handled before its swap or offramp moves on.
-/

set_option autoImplicit false

namespace LightningRelay

open Async

def inboundPaymentsFname : String := "inbound_payments"

/-- An event of LDK. -/
def handleLdkEvents : LdkEvent → Relay Unit
  | .paymentClaimable paymentHash preimage => do
    match preimage with
    | some preimage => ldk (.claimFunds paymentHash preimage)
    | none => pure ()
  | .paymentClaimed paymentHash preimage secret amountMsat => do
    store (.claimInbound paymentHash preimage secret amountMsat)
    persist inboundPaymentsFname
    if (← db (.getByPaymentHash paymentHash)).isSome then spawn (.fulfillSwap paymentHash)
    else pure ()
  | .paymentSent paymentId paymentHash preimage => do
    match paymentId with
    | some paymentId =>
      store (.succeedOutbound paymentId preimage)
      persist outboundPaymentsFname
      if (← db (.getOfframpByPaymentHash paymentHash)).isSome then
        spawn (.completeOfframp paymentHash preimage)
      else pure ()
    | none => pure ()
  | .paymentFailed paymentId paymentHash => do
    let _ ← store (.failOutbound paymentId)
    persist outboundPaymentsFname
    match paymentHash with
    | some paymentHash => spawn (.handleOfframpPaymentFailed paymentHash)
    | none => pure ()

end LightningRelay
