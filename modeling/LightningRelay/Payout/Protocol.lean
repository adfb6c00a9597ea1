import LightningRelay.System

/-!
# The offramp protocol of the tasks

`Stage` is how far a task has got with an offramp, and `Move` lists the operations that touch
offramps: which task may perform them in which stage, and the stage after the answer.  Operations
that no invariant of the offramps depends on (`Op.regulated`) are free.  `body_follows` is the main
result: every program of the relay keeps to this protocol.  The invariants of the offramps are
proved about the protocol alone.
-/

set_option autoImplicit false

namespace LightningRelay

open Async

/-- Operations that the offramp protocol regulates. -/
def Op.regulated : Op → Bool
  | .db (.insertOfframp _) | .db (.updateOfframpStatus _ _ _ _ _)
  | .db (.transitionOfframpStatus _ _ _) | .db (.transitionOfframpWithCbtcTx _ _ _ _) => true
  | .operator (.offramp _) (.verifyCbtcReceived _ _) | .operator (.offramp _) (.sendCbtc _ _)
  | .operator (.offramp _) (.fulfillOfframp _) | .operator (.offramp _) (.submitTx ⟨.sendCbtc, _⟩)
  | .operator (.offramp _) (.submitTx ⟨.cancelOfframp _, _⟩) => true
  | .ldk (.payForBolt11Invoice _ _) | .enter _ | .spawn _ | .serve => true
  | _ => false

namespace Payout

/-- The invoice that the BOLT11 text of a row stands for, and the amount to pay. -/
def invoiceOf (cfg : Config) (m : OfframpMapping) : Option (Bolt11Invoice × ℕ) :=
  match cfg.bolt11FromStr m.bolt11, cbtcToMsat m.amountCbtc with
  | .ok invoice, some requiredMsat => some (invoice, requiredMsat)
  | _, _ => none

/-- `send_payment` accepts the amount. -/
def fits (invoice : Bolt11Invoice) (requiredMsat : ℕ) : Bool :=
  match paymentAmount invoice.amountMilliSatoshis (some requiredMsat) with
  | .ok _ => true
  | .error _ => false

/-- A row as `request_offramp` inserts it. -/
structure Requested (cfg : Config) (m : OfframpMapping) : Prop where
  status : m.status = .awaitingDeposit
  cbtcTxHash : m.cbtcTxHash = ""
  invoice : ∃ invoice requiredMsat, invoiceOf cfg m = some (invoice, requiredMsat) ∧
    invoice.paymentHash = m.paymentHash ∧ fits invoice requiredMsat = true
  refundAddress : m.refundAddress ≠ ""

/-- How far a task has got. -/
inductive Stage where
  | idle
  /-- The startup, with the rows that its last loop goes through. -/
  | booting (stuck : List OfframpMapping)
  /-- A deposit that has read its row; that has found its transaction unused; that has won the row;
  whose transaction is verified; that has stored it; that is inside `send_payment`. -/
  | read (m : OfframpMapping)
  | free (m : OfframpMapping)
  | verifying (m : OfframpMapping)
  | verified (m : OfframpMapping)
  | paying (m : OfframpMapping)
  | sending (m : OfframpMapping)
  /-- `complete_offramp` that has read its row; that has won it. -/
  | found (m : OfframpMapping)
  | owns (m : OfframpMapping)
  /-- A failed payment that nobody has acted on; its row is read; its refund is signed. -/
  | alarmed
  | refunding (m : OfframpMapping)
  | submitting (m : OfframpMapping)
  /-- The monitor that has read the clock; that goes through its snapshot. -/
  | timed (now : ℤ)
  | cancelling (expired : List OfframpMapping)

/-- Stages in which a task may end. -/
def Stage.done : Stage → Bool
  | .idle | .found _ | .owns _ | .cancelling _ => true
  | _ => false

/-- Tasks that are started by other tasks and own nothing. -/
def plain : Call → Bool
  | .monitorExpiredSwaps | .monitorExpiredOfframps | .fulfillSwap _ | .completeOfframp _ _ => true
  | _ => false

/-- The stage in which a task starts. -/
def start : Call → Stage
  | .startLdk => .booting []
  | .handleLdkEvents (.paymentFailed _ (some _)) | .handleOfframpPaymentFailed _ => .alarmed
  | _ => .idle

/-- The operations of the tasks on offramps. -/
inductive Move (cfg : Config) : Call → Stage → (o : Op) → o.Resp → Stage → Prop where
  | quiet {c : Call} {l : Stage} {o : Op} {r : o.Resp} : o.regulated = false → Move cfg c l o r l
  | fail {c : Call} {l : Stage} {id : ℤ} {p d e : Option String} :
      Move cfg c l (.db (.updateOfframpStatus id .failed p d e)) () l
  | spawn {c c' : Call} {l : Stage} : plain c' = true → Move cfg c l (.spawn c') () l
  -- handle_offramp_request
  | request {ip : String} {req : OfframpRequest} {l : Stage} {m : OfframpMapping} {b : Bool} :
      Requested cfg m → Move cfg (.handleOfframpRequest ip req) l (.db (.insertOfframp m)) b l
  -- process_offramp_deposit
  | read {ip tx : String} {id : ℤ} {m : OfframpMapping} : tx ≠ "" →
      Move cfg (.handleOfframpDeposit ip ⟨id, tx⟩) .idle (.db (.getOfframpById id)) (some m)
        (.read m)
  | unused {ip tx : String} {id : ℤ} {m : OfframpMapping} {r : Option OfframpMapping} :
      usedByOther id r = none →
      Move cfg (.handleOfframpDeposit ip ⟨id, tx⟩) (.read m) (.db (.getOfframpByCbtcTx tx)) r
        (.free m)
  | used {ip tx : String} {id : ℤ} {m : OfframpMapping} {r : Option OfframpMapping} :
      Move cfg (.handleOfframpDeposit ip ⟨id, tx⟩) (.read m) (.db (.getOfframpByCbtcTx tx)) r .idle
  | claim {ip tx : String} {id : ℤ} {m : OfframpMapping} :
      Move cfg (.handleOfframpDeposit ip ⟨id, tx⟩) (.free m)
        (.db (.transitionOfframpStatus id .awaitingDeposit .pendingVerification)) true (.verifying m)
  | missed {ip tx : String} {id : ℤ} {m : OfframpMapping} :
      Move cfg (.handleOfframpDeposit ip ⟨id, tx⟩) (.free m)
        (.db (.transitionOfframpStatus id .awaitingDeposit .pendingVerification)) false .idle
  | verified {ip tx : String} {id : ℤ} {m : OfframpMapping} :
      Move cfg (.handleOfframpDeposit ip ⟨id, tx⟩) (.verifying m)
        (.operator (.offramp id) (.verifyCbtcReceived tx m.amountCbtc)) (.ok true) (.verified m)
  | rejected {ip tx : String} {id : ℤ} {m : OfframpMapping} {r : Except CardanoError Bool} :
      r ≠ .ok true →
      Move cfg (.handleOfframpDeposit ip ⟨id, tx⟩) (.verifying m)
        (.operator (.offramp id) (.verifyCbtcReceived tx m.amountCbtc)) r (.verifying m)
  | revert {ip tx : String} {id : ℤ} {m : OfframpMapping} {e : Option String} :
      Move cfg (.handleOfframpDeposit ip ⟨id, tx⟩) (.verifying m)
        (.db (.updateOfframpStatus id .awaitingDeposit none none e)) () .idle
  | record {ip tx : String} {id : ℤ} {m : OfframpMapping} : (invoiceOf cfg m).isSome →
      Move cfg (.handleOfframpDeposit ip ⟨id, tx⟩) (.verified m)
        (.db (.transitionOfframpWithCbtcTx id tx .pendingVerification .payingLightning)) true
        (.paying m)
  | unpayable {ip tx : String} {id : ℤ} {m : OfframpMapping} : invoiceOf cfg m = none →
      Move cfg (.handleOfframpDeposit ip ⟨id, tx⟩) (.verified m)
        (.db (.transitionOfframpWithCbtcTx id tx .pendingVerification .payingLightning)) true .idle
  | overtaken {ip tx : String} {id : ℤ} {m : OfframpMapping} :
      Move cfg (.handleOfframpDeposit ip ⟨id, tx⟩) (.verified m)
        (.db (.transitionOfframpWithCbtcTx id tx .pendingVerification .payingLightning)) false .idle
  | enter {ip tx : String} {id : ℤ} {m : OfframpMapping} {invoice : Bolt11Invoice} {amt : ℕ} :
      invoiceOf cfg m = some (invoice, amt) → fits invoice amt = true →
      Move cfg (.handleOfframpDeposit ip ⟨id, tx⟩) (.paying m)
        (.enter (.sendPayment invoice.paymentHash)) () (.sending m)
  | misfit {ip tx : String} {id : ℤ} {m : OfframpMapping} {invoice : Bolt11Invoice} {amt : ℕ} :
      invoiceOf cfg m = some (invoice, amt) → fits invoice amt = false →
      Move cfg (.handleOfframpDeposit ip ⟨id, tx⟩) (.paying m)
        (.enter (.sendPayment invoice.paymentHash)) () .idle
  | pay {ip tx : String} {id : ℤ} {m : OfframpMapping} {invoice : Bolt11Invoice} {amt : ℕ}
      {r : Except String Unit} : invoiceOf cfg m = some (invoice, amt) →
      Move cfg (.handleOfframpDeposit ip ⟨id, tx⟩) (.sending m)
        (.ldk (.payForBolt11Invoice invoice (some amt))) r .idle
  -- the command sendpayment
  | enterCli {i : String} {amt : Option ℕ} {l : Stage} {f : Fn} :
      Move cfg (.sendpayment i amt) l (.enter f) () l
  | payCli {i : String} {amt amt' : Option ℕ} {l : Stage} {invoice : Bolt11Invoice}
      {r : Except String Unit} :
      Move cfg (.sendpayment i amt) l (.ldk (.payForBolt11Invoice invoice amt')) r l
  -- complete_offramp
  | found {h p : String} {m : OfframpMapping} :
      Move cfg (.completeOfframp h p) .idle (.db (.getOfframpByPaymentHash h)) (some m) (.found m)
  | take {h p : String} {m : OfframpMapping} :
      Move cfg (.completeOfframp h p) (.found m)
        (.db (.transitionOfframpStatus m.offrampId .payingLightning .depositingToPool)) true
        (.owns m)
  | notTaken {h p : String} {m : OfframpMapping} :
      Move cfg (.completeOfframp h p) (.found m)
        (.db (.transitionOfframpStatus m.offrampId .payingLightning .depositingToPool)) false
        (.found m)
  | advance {h p : String} {m : OfframpMapping} {st : OfframpStatus} {p' d e : Option String} :
      st = .depositingToPool ∨ st = .completed →
      Move cfg (.completeOfframp h p) (.owns m) (.db (.updateOfframpStatus m.offrampId st p' d e)) ()
        (.owns m)
  | fulfill {h p : String} {m : OfframpMapping} {offramp : Offramp}
      {r : Except CardanoError String} :
      Move cfg (.completeOfframp h p) (.owns m)
        (.operator (.offramp m.offrampId) (.fulfillOfframp offramp)) r (.owns m)
  -- PaymentFailed and handle_offramp_payment_failed
  | page {id h : String} :
      Move cfg (.handleLdkEvents (.paymentFailed id (some h))) .alarmed
        (.spawn (.handleOfframpPaymentFailed h)) () .idle
  | unknown {h : String} :
      Move cfg (.handleOfframpPaymentFailed h) .alarmed (.db (.getOfframpByPaymentHash h)) none .idle
  | alarm {h : String} {m : OfframpMapping} : m.refundAddress ≠ "" →
      Move cfg (.handleOfframpPaymentFailed h) .alarmed (.db (.getOfframpByPaymentHash h)) (some m)
        (.refunding m)
  | nowhere {h : String} {m : OfframpMapping} : m.refundAddress = "" →
      Move cfg (.handleOfframpPaymentFailed h) .alarmed (.db (.getOfframpByPaymentHash h)) (some m)
        .idle
  | refund {h hex : String} {m : OfframpMapping} :
      Move cfg (.handleOfframpPaymentFailed h) (.refunding m)
        (.operator (.offramp m.offrampId) (.sendCbtc m.refundAddress m.amountCbtc)) (.ok hex)
        (.submitting m)
  | unsigned {h e : String} {m : OfframpMapping} :
      Move cfg (.handleOfframpPaymentFailed h) (.refunding m)
        (.operator (.offramp m.offrampId) (.sendCbtc m.refundAddress m.amountCbtc)) (.error e) .idle
  | submit {h hex : String} {m : OfframpMapping} {r : Except CardanoError String} :
      Move cfg (.handleOfframpPaymentFailed h) (.submitting m)
        (.operator (.offramp m.offrampId) (.submitTx ⟨.sendCbtc, hex⟩)) r .idle
  | cancelFailed {h hex : String} {l : Stage} {id : ℤ} {r : Except CardanoError String} :
      Move cfg (.handleOfframpPaymentFailed h) l
        (.operator (.offramp id) (.submitTx ⟨.cancelOfframp id, hex⟩)) r l
  -- monitor_expired_offramps
  | time {t : ℤ} : Move cfg .monitorExpiredOfframps .idle .now t (.timed t)
  | snapshot {t : ℤ} {rows : List OfframpMapping} :
      Move cfg .monitorExpiredOfframps (.timed t) (.db (.getExpiredOfframps t)) rows
        (.cancelling rows)
  | cancel {hex : String} {rows : List OfframpMapping} {m : OfframpMapping}
      {r : Except CardanoError String} : m ∈ rows →
      Move cfg .monitorExpiredOfframps (.cancelling rows)
        (.operator (.offramp m.offrampId) (.submitTx ⟨.cancelOfframp m.offrampId, hex⟩)) r
        (.cancelling rows)
  -- recover_depositing_offramps
  | reset {rows : List OfframpMapping} {id : ℤ} {b : Bool} :
      Move cfg .startLdk (.booting rows)
        (.db (.transitionOfframpStatus id .pendingVerification .awaitingDeposit)) b (.booting rows)
  | failPaying {rows : List OfframpMapping} {id : ℤ} {b : Bool} :
      Move cfg .startLdk (.booting rows)
        (.db (.transitionOfframpStatus id .payingLightning .failed)) b (.booting rows)
  | scan {rows rows' : List OfframpMapping} :
      Move cfg .startLdk (.booting rows) (.db (.getOfframpsByStatus .depositingToPool)) rows'
        (.booting rows')
  | recover {rows : List OfframpMapping} {m : OfframpMapping} {offramp : Offramp}
      {r : Except CardanoError String} : m ∈ rows →
      Move cfg .startLdk (.booting rows)
        (.operator (.offramp m.offrampId) (.fulfillOfframp offramp)) r (.booting rows)
  | finish {rows : List OfframpMapping} {m : OfframpMapping} : m ∈ rows →
      Move cfg .startLdk (.booting rows)
        (.db (.updateOfframpStatus m.offrampId .completed none none none)) () (.booting rows)
  | serve {rows : List OfframpMapping} : Move cfg .startLdk (.booting rows) .serve () .idle

end Payout

end LightningRelay
