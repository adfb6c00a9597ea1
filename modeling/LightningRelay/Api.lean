import LightningRelay.CardanoOfframp

/-!
# The REST API

The request handlers of `api.rs` that change swaps, and the command `sendpayment` of the CLI.
-/

set_option autoImplicit false

namespace LightningRelay

open Async

/-- An error response: the status code and the `error` field of the body. -/
structure ApiError where
  status : ℕ
  error : String
  deriving DecidableEq, Repr

structure SwapResponse where
  invoiceId : ℤ
  bolt11 : String
  paymentHash : String
  deriving DecidableEq, Repr

structure OfframpResponse where
  offrampId : ℤ
  operatorAddress : String
  paymentHash : String
  status : String
  deriving DecidableEq, Repr

def maxBolt11Len : ℕ := 2048

def maxCardanoAddrLen : ℕ := 256

def maxTxHashLen : ℕ := 128

def rateLimited : ApiError := ⟨429, "rate limit exceeded, try again later"⟩

def badAmount : ApiError := ⟨400, "amount must be between 1 and 10,000,000,000 cBTC"⟩

/-- The amounts that a request may ask for. -/
def amountOk (amountCbtc : ℤ) : Bool := 0 < amountCbtc && amountCbtc ≤ 10000000000

/-! ## Onramp -/

/-- Create the BOLT11 invoice of a swap: its text and its payment hash. -/
def createInvoiceForSwap (amountCbtc : ℤ) (description : String) (expirySecs : ℕ) :
    Relay (Option (String × String)) := do
  match cbtcToMsat amountCbtc with
  | none => pure none
  | some amtMsat =>
  -- the description must fit a tagged field of the invoice
  if description.utf8ByteSize > 639 then panic "description too long for BOLT11"
  else
  match ← ldk (.createBolt11Invoice amtMsat description expirySecs) with
  | .error _ => pure none
  | .ok invoice =>
    store (.insertInbound invoice.paymentHash
      { preimage := none
        secret := some invoice.paymentSecret
        status := .pending
        amtMsat := some amtMsat })
    pure (some (invoice.text, invoice.paymentHash))

theorem only_createInvoiceForSwap {P : Op → Prop} {amountCbtc : ℤ}
    (hldk : ∀ amtMsat description expirySecs, cbtcToMsat amountCbtc = some amtMsat →
      P (.ldk (.createBolt11Invoice amtMsat description expirySecs)))
    (hstore : ∀ amtMsat paymentHash secret, cbtcToMsat amountCbtc = some amtMsat →
      P (.store (.insertInbound paymentHash ⟨none, some secret, .pending, some amtMsat⟩)))
    (description : String) (expirySecs : ℕ) :
    (createInvoiceForSwap amountCbtc description expirySecs).Only P := by
  unfold createInvoiceForSwap
  rcases hamt : cbtcToMsat amountCbtc with _ | amtMsat
  · trivial
  dsimp only
  split_ifs
  · exact nofun
  refine only_perform (hldk _ _ _ hamt) ?_
  rintro (e | invoice)
  · trivial
  · exact only_perform (hstore _ _ _ hamt) fun _ => trivial

/-- The pool has too little for the request, as far as the query tells. -/
def insufficient (amountCbtc : ℤ) : Except CardanoError ContractState → Option ℤ
  | .ok state => if amountCbtc > state.available then some state.available else none
  | .error _ => none

def handleSwapRequest (cfg : Config) (ip : String) (req : SwapRequest) :
    Relay (Except ApiError SwapResponse) := do
  if !(← rateLimit ip) then pure (.error rateLimited)
  else if !amountOk req.amountCbtc then pure (.error badAmount)
  else if req.cardanoAddress.utf8ByteSize > maxCardanoAddrLen then
    pure (.error ⟨400, "cardano_address too long"⟩)
  else
  let activeSwaps ← db .countActiveSwaps
  if activeSwaps ≥ cfg.maxActiveSwaps then
    pure (.error ⟨503, s!"too many active swaps ({activeSwaps}), try again later"⟩)
  else
  match insufficient req.amountCbtc (← operator .pool .queryState) with
  | some available =>
    pure (.error ⟨400, s!"insufficient pool liquidity: requested {req.amountCbtc} but only {available} available"⟩)
  | none =>
  let expiryMs := cfg.swapExpiryMs
  let expirySecs := (expiryMs.tdiv 1000 % 2 ^ 32).toNat
  match ← requestSwap cfg req.amountCbtc req.cardanoAddress expiryMs with
  | .error e => pure (.error ⟨400, e⟩)
  | .ok (invoiceId, description, createTxHash) =>
  match ← createInvoiceForSwap req.amountCbtc description expirySecs with
  | none => pure (.error ⟨500, "failed to create BOLT11 invoice"⟩)
  | some (bolt11, paymentHash) =>
    let nowMs ← currentTimestampMs
    storeSwapMapping paymentHash invoiceId req.amountCbtc req.cardanoAddress
      (wrapI64 (nowMs + expiryMs)) createTxHash
    pure (.ok ⟨invoiceId, bolt11, paymentHash⟩)

/-! ## Offramp -/

def handleOfframpRequest (cfg : Config) (ip : String) (req : OfframpRequest) :
    Relay (Except ApiError OfframpResponse) := do
  if !(← rateLimit ip) then pure (.error rateLimited)
  else if !amountOk req.amountCbtc then pure (.error badAmount)
  else if req.bolt11.utf8ByteSize > maxBolt11Len then
    pure (.error ⟨400, "bolt11 invoice too long"⟩)
  else if req.cardanoAddress.utf8ByteSize > maxCardanoAddrLen then
    pure (.error ⟨400, "cardano_address too long"⟩)
  else
  let activeOfframps ← db .countActiveOfframps
  if activeOfframps ≥ cfg.maxActiveOfframps then
    pure (.error ⟨503, s!"too many active offramps ({activeOfframps}), try again later"⟩)
  else
  match ← requestOfframp cfg req.bolt11 req.amountCbtc req.cardanoAddress cfg.swapExpiryMs with
  | .error e => pure (.error ⟨400, e⟩)
  | .ok (offrampId, operatorAddress, paymentHash) =>
    pure (.ok ⟨offrampId, operatorAddress, paymentHash, "AwaitingDeposit"⟩)

def handleOfframpDeposit (cfg : Config) (ip : String) (req : OfframpDepositRequest) :
    Relay (Except ApiError OfframpResponse) := do
  if !(← rateLimit ip) then pure (.error rateLimited)
  else if req.offrampId ≤ 0 then pure (.error ⟨400, "invalid offramp_id"⟩)
  else if req.cbtcTxHash.utf8ByteSize > maxTxHashLen || req.cbtcTxHash = "" then
    pure (.error ⟨400, "invalid cbtc_tx_hash"⟩)
  else
  match ← processOfframpDeposit cfg req.offrampId req.cbtcTxHash with
  | .error e => pure (.error ⟨400, e⟩)
  | .ok _ =>
  match ← db (.getOfframpById req.offrampId) with
  | none => pure (.error ⟨404, "offramp not found"⟩)
  | some mapping =>
    pure (.ok ⟨req.offrampId, cfg.operatorAddress, mapping.paymentHash, mapping.status.asStr⟩)

/-- The CLI command `sendpayment` on a BOLT11 invoice. -/
def sendpayment (cfg : Config) (invoice : String) (amountMsat : Option ℕ) : Relay Unit := do
  match cfg.bolt11FromStr invoice with
  | .error _ => pure ()
  | .ok invoice =>
    let _ ← sendPayment invoice amountMsat

end LightningRelay
