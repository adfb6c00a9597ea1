import LightningRelay.System

/-!
# Which operations a task performs

For each kind of task, the operations that occur in its program (`Call.performs`), whatever the
answers are.  `body_performs` is the main result; the lemmas for the single functions are stated
with the function's own set, so that a protocol that leaves these operations alone need not follow
the text of the function again.
-/

set_option autoImplicit false

namespace LightningRelay

open Async

namespace Op

/-- `handle_swap_request`. -/
def requestsSwap : Op → Bool
  | .rateLimit _ | .now | .sleep _ | .db .countActiveSwaps | .db (.insert _)
  | .operator .pool .queryState | .operator .pool (.createInvoice _ _ _ _)
  | .operator .pool (.submitTx ⟨.createInvoice, _⟩)
  | .ldk (.createBolt11Invoice _ _ _) | .store (.insertInbound _ _) => true
  | _ => false

/-- `handle_offramp_request`. -/
def requestsOfframp : Op → Bool
  | .rateLimit _ | .now | .sleep _ | .db .countActiveOfframps | .db (.getOfframpByPaymentHash _)
  | .db (.insertOfframp _) | .operator .pool (.createOfframp _ _ _ _)
  | .operator .pool (.submitTx ⟨.createOfframp, _⟩) => true
  | _ => false

/-- `send_payment`. -/
def sendsPayment : Op → Bool
  | .enter _ | .store (.insertOutbound _ _) | .store (.failOutbound _) | .persist _
  | .ldk (.payForBolt11Invoice _ _) => true
  | _ => false

/-- `handle_offramp_deposit`. -/
def deposits : Op → Bool
  | .rateLimit _ | .db (.getOfframpById _) | .db (.getOfframpByCbtcTx _)
  | .db (.transitionOfframpStatus _ .awaitingDeposit .pendingVerification)
  | .db (.updateOfframpStatus _ .awaitingDeposit _ _ _) | .db (.updateOfframpStatus _ .failed _ _ _)
  | .db (.transitionOfframpWithCbtcTx _ _ .pendingVerification .payingLightning)
  | .operator (.offramp _) (.verifyCbtcReceived _ _) => true
  | o => o.sendsPayment

/-- `fulfill_swap`. -/
def fulfillsSwap : Op → Bool
  | .now | .sleep _ | .db (.getByPaymentHash _)
  | .db (.transitionStatus _ .pending .fulfilling _)
  | .db (.updateStatus _ .failed _) | .db (.updateStatus _ .completed _)
  | .operator (.swap _) .queryState | .operator (.swap _) (.fulfillInvoice _ _)
  | .operator (.swap _) (.submitTx ⟨.fulfillInvoice _, _⟩) => true
  | _ => false

/-- `complete_offramp`. -/
def completesOfframp : Op → Bool
  | .sleep _ | .db (.getOfframpByPaymentHash _)
  | .db (.transitionOfframpStatus _ .payingLightning .depositingToPool)
  | .db (.updateOfframpStatus _ .depositingToPool _ _ _)
  | .db (.updateOfframpStatus _ .failed _ _ _) | .db (.updateOfframpStatus _ .completed _ _ _)
  | .operator (.offramp _) .queryState | .operator (.offramp _) (.fulfillOfframp _)
  | .operator (.offramp _) (.submitTx ⟨.fulfillOfframp _, _⟩) => true
  | _ => false

/-- `cancel_offramp_on_chain`. -/
def cancelsOfframp : Op → Bool
  | .db (.getOfframpById _) | .db (.updateOfframpStatus _ .failed _ _ _)
  | .operator (.offramp _) (.cancelOfframp _)
  | .operator (.offramp _) (.submitTx ⟨.cancelOfframp _, _⟩) => true
  | _ => false

/-- `handle_offramp_payment_failed`. -/
def refunds : Op → Bool
  | .db (.getOfframpByPaymentHash _) | .operator (.offramp _) (.sendCbtc _ _)
  | .operator (.offramp _) (.submitTx ⟨.sendCbtc, _⟩) => true
  | o => o.cancelsOfframp

/-- One turn of `monitor_expired_swaps`. -/
def monitorsSwaps : Op → Bool
  | .now | .sleep _ | .db (.getExpiredPending _) | .db (.updateStatus _ .expired _)
  | .operator (.swap _) (.cancelInvoice _) | .operator (.swap _) (.submitTx ⟨.cancelInvoice _, _⟩)
  | .spawn .monitorExpiredSwaps => true
  | _ => false

/-- One turn of `monitor_expired_offramps`. -/
def monitorsOfframps : Op → Bool
  | .now | .sleep _ | .db (.getExpiredOfframps _) | .spawn .monitorExpiredOfframps => true
  | o => o.cancelsOfframp

/-- `recover_fulfilling_swaps`. -/
def recoversSwaps : Op → Bool
  | .sleep _ | .db (.getByStatus _) | .db (.updateStatus _ .completed _)
  | .operator (.swap _) .queryState | .operator (.swap _) (.fulfillInvoice _ _)
  | .operator (.swap _) (.submitTx ⟨.fulfillInvoice _, _⟩) => true
  | _ => false

/-- `recover_depositing_offramps`. -/
def recoversOfframps : Op → Bool
  | .sleep _ | .db (.getOfframpsByStatus _)
  | .db (.transitionOfframpStatus _ .pendingVerification .awaitingDeposit)
  | .db (.transitionOfframpStatus _ .payingLightning .failed)
  | .db (.updateOfframpStatus _ .failed _ _ _) | .db (.updateOfframpStatus _ .completed _ _ _)
  | .operator (.offramp _) .queryState | .operator (.offramp _) (.fulfillOfframp _)
  | .operator (.offramp _) (.submitTx ⟨.fulfillOfframp _, _⟩) => true
  | _ => false

/-- The commands `cancel-expired` and `cancel-expired-offramps`. -/
def cancelsExpired : Op → Bool
  | .now | .sleep _ | .operator .pool .queryState
  | .operator .pool (.cancelInvoice _) | .operator .pool (.submitTx ⟨.cancelInvoice _, _⟩)
  | .operator .pool (.cancelOfframp _) | .operator .pool (.submitTx ⟨.cancelOfframp _, _⟩) => true
  | _ => false

/-- `start_ldk`. -/
def starts (o : Op) : Bool :=
  o.recoversSwaps || o.recoversOfframps || o.cancelsExpired ||
    o = .spawn .monitorExpiredSwaps || o = .spawn .monitorExpiredOfframps || o = .serve

/-- `handle_ldk_events`. -/
def handlesEvent : Op → Bool
  | .ldk (.claimFunds _ _) | .persist _ | .db (.getByPaymentHash _)
  | .db (.getOfframpByPaymentHash _) | .store (.claimInbound _ _ _ _)
  | .store (.succeedOutbound _ _) | .store (.failOutbound _) | .spawn (.fulfillSwap _)
  | .spawn (.completeOfframp _ _) | .spawn (.handleOfframpPaymentFailed _) => true
  | _ => false

/-- The operations of the startup are those of its parts and the starts of the monitors and the API. -/
theorem starts_cases {P : Op → Prop} {o : Op} (h : o.starts = true)
    (hswaps : o.recoversSwaps = true → P o) (hofframps : o.recoversOfframps = true → P o)
    (hexpired : o.cancelsExpired = true → P o) (hmonitor : P (.spawn .monitorExpiredSwaps))
    (hmonitor' : P (.spawn .monitorExpiredOfframps)) (hserve : P .serve) : P o := by
  simp only [starts, Bool.or_eq_true, decide_eq_true_eq] at h
  rcases h with ((((h | h) | h) | rfl) | rfl) | rfl
  · exact hswaps h
  · exact hofframps h
  · exact hexpired h
  · exact hmonitor
  · exact hmonitor'
  · exact hserve

end Op

/-- The operations that may occur in a task. -/
def Call.performs : Call → Op → Bool
  | .startLdk => Op.starts
  | .monitorExpiredSwaps => Op.monitorsSwaps
  | .monitorExpiredOfframps => Op.monitorsOfframps
  | .handleSwapRequest _ _ => Op.requestsSwap
  | .handleOfframpRequest _ _ => Op.requestsOfframp
  | .handleOfframpDeposit _ _ => Op.deposits
  | .handleLdkEvents _ => Op.handlesEvent
  | .fulfillSwap _ => Op.fulfillsSwap
  | .completeOfframp _ _ => Op.completesOfframp
  | .handleOfframpPaymentFailed _ => Op.refunds
  | .sendpayment _ _ => Op.sendsPayment
  | .cancelExpired | .cancelExpiredOfframps => Op.cancelsExpired

namespace Footprint

/-- Every operation that the program can perform is in the set. -/
abbrev Within {α : Type} (ops : Op → Bool) (p : Relay α) : Prop := p.Only fun o => ops o = true

theorem query {ops : Op → Bool} {α : Type} {about : About} {n d : ℕ} {ctx : String}
    {find : ContractState → Option α} (hs : ∀ n, ops (.sleep n) = true)
    (hq : ops (.operator about .queryState) = true) :
    Within ops (queryStateWithRetry about n d ctx find) :=
  only_queryStateWithRetry hs hq

variable (cfg : Config)

/-! ## Requests -/

theorem requestSwap (amount : ℤ) (address : String) (expiryMs : ℤ) :
    Within Op.requestsSwap (requestSwap cfg amount address expiryMs) :=
  only_requestSwap (P := fun o => o.requestsSwap = true) (fun _ _ _ => rfl) (fun _ => rfl) rfl
    (fun _ => rfl) _ _ _

theorem createInvoiceForSwap (amount : ℤ) (description : String) (expirySecs : ℕ) :
    Within Op.requestsSwap (createInvoiceForSwap amount description expirySecs) :=
  only_createInvoiceForSwap (P := fun o => o.requestsSwap = true) (fun _ _ _ _ => rfl)
    (fun _ _ _ _ => rfl) _ _

theorem handleSwapRequest (ip : String) (req : SwapRequest) :
    Within Op.requestsSwap (handleSwapRequest cfg ip req) := by
  refine only_perform rfl fun allowed => ?_
  split_ifs
  · trivial
  · trivial
  · trivial
  refine only_perform rfl fun active => ?_
  dsimp only
  split_ifs
  · trivial
  refine only_perform rfl fun answer => ?_
  rcases insufficient req.amountCbtc answer with _ | available
  swap
  · trivial
  refine (requestSwap cfg _ _ _).bind ?_
  rintro (e | ⟨invoiceId, description, createTxHash⟩)
  · trivial
  refine (createInvoiceForSwap _ _ _).bind ?_
  rintro (_ | ⟨bolt11, paymentHash⟩)
  · trivial
  refine only_perform rfl fun now => Prog.Only.bind ?_ fun _ => trivial
  refine only_perform rfl fun created => only_perform rfl ?_
  rintro (_ | _)
  · exact nofun
  · trivial

theorem requestOfframp (bolt11 : String) (amount : ℤ) (address : String) (expiryMs : ℤ) :
    Within Op.requestsOfframp (requestOfframp cfg bolt11 amount address expiryMs) := by
  unfold LightningRelay.requestOfframp
  rcases cfg.bolt11FromStr bolt11 with e | invoice
  · trivial
  refine only_perform rfl ?_
  rintro (_ | existing)
  swap
  · trivial
  dsimp only
  split_ifs
  · trivial
  rcases cbtcToMsat amount with _ | amt
  · trivial
  dsimp only
  rcases mismatch? invoice amt with _ | invAmt
  swap
  · trivial
  dsimp only
  rcases addressToPkh cfg address with e | pkh
  · trivial
  refine only_perform rfl fun now => (only_submitContractTxWithRetry (fun _ => rfl) ?_).bind ?_
  · refine only_perform rfl ?_
    rintro (e | ⟨id, tx⟩)
    · trivial
    refine only_perform rfl ?_
    rintro (e | hash) <;> trivial
  rintro (e | ⟨id, hash⟩)
  · trivial
  refine only_perform rfl ?_
  rintro (_ | _)
  · exact nofun
  · trivial

theorem handleOfframpRequest (ip : String) (req : OfframpRequest) :
    Within Op.requestsOfframp (handleOfframpRequest cfg ip req) := by
  refine only_perform rfl fun allowed => ?_
  split_ifs
  · trivial
  · trivial
  · trivial
  · trivial
  refine only_perform rfl fun active => ?_
  split_ifs
  · trivial
  refine (requestOfframp cfg _ _ _ _).bind ?_
  rintro (e | ⟨id, address, hash⟩) <;> trivial

/-! ## Deposits and payments -/

theorem sendPayment (invoice : Bolt11Invoice) (amt : Option ℕ) :
    Within Op.sendsPayment (sendPayment invoice amt) := by
  refine only_perform rfl fun _ => ?_
  rcases paymentAmount invoice.amountMilliSatoshis amt with e | amtMsat
  · trivial
  refine only_perform rfl fun _ => only_perform rfl fun _ => only_perform rfl ?_
  rintro (e | _)
  · refine only_perform rfl ?_
    rintro (_ | _)
    · exact nofun
    · exact only_perform rfl fun _ => trivial
  · trivial

theorem sendpayment (i : String) (amt : Option ℕ) :
    Within Op.sendsPayment (sendpayment cfg i amt) := by
  unfold LightningRelay.sendpayment
  rcases cfg.bolt11FromStr i with e | invoice
  · trivial
  · exact (sendPayment _ _).bind fun _ => trivial

theorem deposits_of_sendsPayment {o : Op} (h : o.sendsPayment = true) : o.deposits = true := by
  unfold Op.sendsPayment at h
  split at h <;> first | rfl | cases h

theorem payOfframp (id : ℤ) (m : OfframpMapping) : Within Op.deposits (payOfframp cfg id m) := by
  unfold LightningRelay.payOfframp
  rcases cfg.bolt11FromStr m.bolt11 with e | invoice
  · trivial
  rcases cbtcToMsat m.amountCbtc with _ | amt
  · trivial
  refine ((sendPayment _ _).imp fun _ => deposits_of_sendsPayment).bind ?_
  rintro (e | _)
  · exact only_perform rfl fun _ => trivial
  · trivial

theorem processOfframpDeposit (id : ℤ) (tx : String) :
    Within Op.deposits (processOfframpDeposit cfg id tx) := by
  refine only_perform rfl ?_
  rintro (_ | m)
  · trivial
  refine only_perform rfl fun existing => ?_
  rcases usedByOther id existing with _ | other
  swap
  · trivial
  refine only_perform rfl ?_
  rintro (_ | _)
  · trivial
  refine only_perform rfl ?_
  rintro (e | _ | _)
  · exact only_perform rfl fun _ => trivial
  · exact only_perform rfl fun _ => trivial
  refine only_perform rfl ?_
  rintro (_ | _)
  · trivial
  · exact payOfframp cfg id m

theorem handleOfframpDeposit (ip : String) (req : OfframpDepositRequest) :
    Within Op.deposits (handleOfframpDeposit cfg ip req) := by
  refine only_perform rfl fun allowed => ?_
  split_ifs
  · trivial
  · trivial
  · trivial
  refine (processOfframpDeposit cfg _ _).bind ?_
  rintro (e | _)
  · trivial
  refine only_perform rfl ?_
  rintro (_ | m) <;> trivial

/-! ## Handlers of LDK events -/

theorem fulfillSwap (h : String) : Within Op.fulfillsSwap (fulfillSwap h) :=
  only_fulfillSwap rfl (fun _ => rfl) rfl rfl rfl (fun _ _ => rfl) (fun _ _ => rfl) rfl fun _ => rfl

theorem completeOfframp (h p : String) : Within Op.completesOfframp (completeOfframp h p) := by
  refine only_perform rfl ?_
  rintro (_ | m)
  · trivial
  refine only_perform rfl ?_
  rintro (_ | _)
  · trivial
  refine only_perform rfl fun _ => (query (fun _ => rfl) rfl).bind ?_
  rintro (e | offramp)
  · exact only_last rfl
  refine (only_submitContractTxWithRetry (fun _ => rfl) ?_).bind ?_
  · exact only_perform rfl fun r => only_thenSubmit r fun _ => rfl
  · rintro (e | txHash) <;> exact only_last rfl

theorem cancelOfframpOnChain (m : OfframpMapping) :
    Within Op.cancelsOfframp (cancelOfframpOnChain m) := by
  refine only_perform rfl ?_
  rintro (e | hex)
  · trivial
  refine only_perform rfl ?_
  rintro (e | txHash)
  · trivial
  · exact only_perform rfl fun _ => only_last rfl

theorem refunds_of_cancelsOfframp {o : Op} (h : o.cancelsOfframp = true) : o.refunds = true := by
  unfold Op.cancelsOfframp at h
  split at h <;> first | rfl | cases h

theorem refundOfframp (m : OfframpMapping) : Within Op.refunds (refundOfframp m) := by
  refine only_perform rfl ?_
  rintro (e | hex)
  · trivial
  refine only_perform rfl ?_
  rintro (e | txHash) <;> trivial

theorem handleOfframpPaymentFailed (h : String) :
    Within Op.refunds (handleOfframpPaymentFailed h) := by
  have hcancel : ∀ m, Within Op.refunds (LightningRelay.cancelOfframpOnChain m) := fun m =>
    (cancelOfframpOnChain m).imp fun _ => refunds_of_cancelsOfframp
  refine only_perform rfl ?_
  rintro (_ | m)
  · trivial
  dsimp only
  split_ifs
  · exact (refundOfframp m).bind fun _ => only_perform rfl fun _ => hcancel m
  · exact only_perform rfl fun _ => hcancel m

theorem handleLdkEvents (event : LdkEvent) : Within Op.handlesEvent (handleLdkEvents event) := by
  cases event with
  | paymentClaimable h preimage =>
    rcases preimage with _ | preimage
    · trivial
    · exact only_last rfl
  | paymentClaimed h preimage secret amt =>
    refine only_perform rfl fun _ => only_perform rfl fun _ => only_perform rfl ?_
    rintro (_ | m)
    · trivial
    · exact only_last rfl
  | paymentSent id h preimage =>
    rcases id with _ | id
    · trivial
    refine only_perform rfl fun _ => only_perform rfl fun _ => only_perform rfl ?_
    rintro (_ | m)
    · trivial
    · exact only_last rfl
  | paymentFailed id h =>
    refine only_perform rfl fun _ => only_perform rfl fun _ => ?_
    rcases h with _ | h
    · trivial
    · exact only_last rfl

/-! ## Background loops, commands and the startup -/

theorem monitorExpiredSwaps : Within Op.monitorsSwaps monitorExpiredSwaps := by
  refine only_perform rfl fun _ => only_perform rfl fun now => only_perform rfl fun expired => ?_
  refine (only_forEach (fun m => ?_) expired).bind fun _ => only_last rfl
  refine only_perform rfl ?_
  rintro (e | hex)
  · trivial
  refine only_perform rfl ?_
  rintro (e | txHash)
  · trivial
  · exact only_last rfl

theorem monitorsOfframps_of_cancelsOfframp {o : Op} (h : o.cancelsOfframp = true) :
    o.monitorsOfframps = true := by
  unfold Op.cancelsOfframp at h
  split at h <;> first | rfl | cases h

theorem monitorExpiredOfframps : Within Op.monitorsOfframps monitorExpiredOfframps := by
  refine only_perform rfl fun _ => only_perform rfl fun now => only_perform rfl fun expired => ?_
  refine (only_forEach (fun m => ?_) expired).bind fun _ => only_last rfl
  exact (cancelOfframpOnChain m).imp fun _ => monitorsOfframps_of_cancelsOfframp

theorem recoverFulfillingSwaps : Within Op.recoversSwaps recoverFulfillingSwaps := by
  refine only_perform rfl fun stuck => only_forEach (fun mapping => ?_) stuck
  refine (query (fun _ => rfl) rfl).bind ?_
  rintro (e | invoice)
  · exact only_last rfl
  refine only_perform rfl ?_
  rintro (e | signedTx)
  · trivial
  refine only_perform rfl ?_
  rintro (e | txHash)
  · trivial
  · exact only_last rfl

theorem recoverDepositingOfframps : Within Op.recoversOfframps recoverDepositingOfframps := by
  refine only_perform rfl fun verifying => (only_forEach (fun m => ?_) verifying).bind fun _ => ?_
  · exact only_perform rfl fun _ => trivial
  refine only_perform rfl fun paying => (only_forEach (fun m => ?_) paying).bind fun _ => ?_
  · refine only_perform rfl ?_
    rintro (_ | _)
    · trivial
    · exact only_last rfl
  refine only_perform rfl fun stuck => only_forEach (fun m => ?_) stuck
  refine (query (fun _ => rfl) rfl).bind ?_
  rintro (e | offramp)
  · exact only_last rfl
  refine only_perform rfl ?_
  rintro (e | hex)
  · trivial
  refine only_perform rfl ?_
  rintro (e | txHash)
  · trivial
  · exact only_last rfl

theorem cancelExpired : Within Op.cancelsExpired cancelExpired :=
  only_cancelExpired (P := fun o => o.cancelsExpired = true) rfl (fun _ => rfl) (fun _ _ => rfl) rfl
    fun _ => rfl

theorem cancelExpiredOfframps : Within Op.cancelsExpired cancelExpiredOfframps :=
  only_cancelExpiredOfframps (P := fun o => o.cancelsExpired = true) rfl (fun _ => rfl)
    (fun _ _ => rfl) rfl fun _ => rfl

theorem startLdk : Within Op.starts (startLdk cfg) := by
  have hrest : Within Op.starts (do
      spawn .monitorExpiredSwaps
      spawn .monitorExpiredOfframps
      serve) :=
    only_perform rfl fun _ => only_perform rfl fun _ => only_last rfl
  have hexpired : ∀ {o : Op}, o.cancelsExpired = true → o.starts = true := fun h => by
    simp [Op.starts, h]
  refine (recoverFulfillingSwaps.imp fun _ h => by simp [Op.starts, h]).bind fun _ => ?_
  refine (recoverDepositingOfframps.imp fun _ h => by simp [Op.starts, h]).bind fun _ => ?_
  split_ifs
  · refine (cancelExpired.imp fun _ => hexpired).bind fun _ => ?_
    exact (cancelExpiredOfframps.imp fun _ => hexpired).bind fun _ => hrest
  · exact hrest

/-- A task performs the operations of its kind and no others. -/
theorem body_performs (c : Call) : Within c.performs (body cfg c) := by
  cases c with
  | startLdk => exact startLdk cfg
  | monitorExpiredSwaps => exact monitorExpiredSwaps
  | monitorExpiredOfframps => exact monitorExpiredOfframps
  | handleSwapRequest ip req => exact (handleSwapRequest cfg ip req).bind fun _ => trivial
  | handleOfframpRequest ip req => exact (handleOfframpRequest cfg ip req).bind fun _ => trivial
  | handleOfframpDeposit ip req => exact (handleOfframpDeposit cfg ip req).bind fun _ => trivial
  | handleLdkEvents event => exact handleLdkEvents event
  | fulfillSwap h => exact fulfillSwap h
  | completeOfframp h p => exact completeOfframp h p
  | handleOfframpPaymentFailed h => exact handleOfframpPaymentFailed h
  | sendpayment i amt => exact sendpayment cfg i amt
  | cancelExpired => exact cancelExpired
  | cancelExpiredOfframps => exact cancelExpiredOfframps

end Footprint

end LightningRelay
