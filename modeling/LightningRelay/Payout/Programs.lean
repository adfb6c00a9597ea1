import LightningRelay.Footprint
import LightningRelay.Payout.Protocol

/-!
# The programs keep to the offramp protocol

One lemma for each program of the relay, along its text; `body_follows` collects them.
-/

set_option autoImplicit false

namespace LightningRelay

open Async

namespace Payout

/-! ## Programs that the protocol does not restrict -/

/-- A program without regulated operations. -/
abbrev Free {α : Type} (p : Relay α) : Prop := p.Only fun o => o.regulated = false

variable {cfg : Config} {c : Call} {l : Stage} {α : Type}

theorem Free.follows {p : Relay α} (h : Free p) :
    Follows (Move cfg c) (fun _ l' => l' = l) p l :=
  Prog.Only.follows h fun _ _ => .quiet

theorem regulated_queryState (about : About) :
    (Op.operator about .queryState).regulated = false := by
  cases about <;> rfl

theorem follows_query {about : About} {n d : ℕ} {ctx : String} {find : ContractState → Option α} :
    Follows (Move cfg c) (fun _ l' => l' = l) (queryStateWithRetry about n d ctx find) l :=
  follows_queryStateWithRetry (fun _ _ => .quiet rfl) fun _ => .quiet (regulated_queryState about)

theorem follows_submit {n d : ℕ} {ctx : String} {p : Relay (Except CardanoError α)}
    (h : Follows (Move cfg c) (fun _ l' => l' = l) p l) :
    Follows (Move cfg c) (fun _ l' => l' = l) (submitContractTxWithRetry ctx n d p) l :=
  follows_submitContractTxWithRetry (fun _ _ => .quiet rfl) h

theorem free_query {about : About} {n d : ℕ} {ctx : String} {find : ContractState → Option α} :
    Free (queryStateWithRetry about n d ctx find) :=
  only_queryStateWithRetry (fun _ => rfl) (regulated_queryState about)

theorem free_submit {n d : ℕ} {ctx : String} {p : Relay (Except CardanoError α)} (h : Free p) :
    Free (submitContractTxWithRetry ctx n d p) :=
  only_submitContractTxWithRetry (fun _ => rfl) h

section

variable {o : Op}

theorem regulated_of_cancelsExpired (h : o.cancelsExpired = true) : o.regulated = false := by
  unfold Op.cancelsExpired at h
  split at h <;> first | rfl | cases h

theorem regulated_of_recoversSwaps (h : o.recoversSwaps = true) : o.regulated = false := by
  unfold Op.recoversSwaps at h
  split at h <;> first | rfl | cases h

theorem regulated_of_fulfillsSwap (h : o.fulfillsSwap = true) : o.regulated = false := by
  unfold Op.fulfillsSwap at h
  split at h <;> first | rfl | cases h

theorem regulated_of_requestsSwap (h : o.requestsSwap = true) : o.regulated = false := by
  unfold Op.requestsSwap at h
  split at h <;> first | rfl | cases h

end

theorem free_cancelExpired : Free cancelExpired :=
  Footprint.cancelExpired.imp fun _ => regulated_of_cancelsExpired

theorem free_cancelExpiredOfframps : Free cancelExpiredOfframps :=
  Footprint.cancelExpiredOfframps.imp fun _ => regulated_of_cancelsExpired

theorem free_recoverFulfillingSwaps : Free recoverFulfillingSwaps :=
  Footprint.recoverFulfillingSwaps.imp fun _ => regulated_of_recoversSwaps

theorem free_fulfillSwap (h : String) : Free (fulfillSwap h) :=
  (Footprint.fulfillSwap h).imp fun _ => regulated_of_fulfillsSwap

theorem free_handleSwapRequest (ip : String) (req : SwapRequest) :
    Free (handleSwapRequest cfg ip req) :=
  (Footprint.handleSwapRequest cfg ip req).imp fun _ => regulated_of_requestsSwap

/-! ## Requests -/

theorem hexEncode_ne_empty {bytes : List ℕ} (h : bytes ≠ []) : hexEncode bytes ≠ "" := by
  cases bytes with
  | nil => exact absurd rfl h
  | cons b bs => simp [hexEncode, String.ofList_eq_empty_iff]

theorem addressToPkh_ne_empty {address pkh : String} (h : addressToPkh cfg address = .ok pkh) :
    pkh ≠ "" := by
  unfold addressToPkh validateAddress at h
  split at h
  · cases h
  split_ifs at h
  simp only [Option.filter_none] at h
  split at h
  · cases h
  split_ifs at h with hlen
  obtain rfl := Except.ok.inj h
  apply hexEncode_ne_empty
  intro e
  have := congrArg List.length e
  simp only [List.length_take, List.length_drop, List.length_nil] at this
  omega

theorem fits_of_mismatch?_eq_none {invoice : Bolt11Invoice} {amt : ℕ}
    (h : mismatch? invoice amt = none) : fits invoice amt = true := by
  unfold mismatch? at h
  unfold fits
  rcases hinv : invoice.amountMilliSatoshis with _ | invAmt
  · rfl
  · rw [hinv, Option.filter_eq_none_iff] at h
    have : invAmt = amt := by simpa using h
    simp [paymentAmount, this]

theorem follows_requestOfframp {ip : String} {req : OfframpRequest} (bolt11 : String) (amount : ℤ)
    (address : String) (expiryMs : ℤ) :
    Follows (Move cfg (.handleOfframpRequest ip req)) (fun _ l' => l' = l)
      (requestOfframp cfg bolt11 amount address expiryMs) l := by
  unfold requestOfframp
  rcases hinv : cfg.bolt11FromStr bolt11 with e | invoice
  · exact rfl
  refine follows_stay (fun _ => .quiet rfl) ?_
  rintro (_ | existing)
  swap
  · exact rfl
  dsimp only
  split_ifs
  · exact rfl
  rcases hamt : cbtcToMsat amount with _ | amt
  · exact rfl
  dsimp only
  rcases hmis : mismatch? invoice amt with _ | invAmt
  swap
  · exact rfl
  dsimp only
  rcases hpkh : addressToPkh cfg address with e | pkh
  · exact rfl
  refine follows_stay (fun _ => .quiet rfl) fun now => ?_
  refine (follows_submit ?_).bind ?_
  · refine follows_stay (fun _ => .quiet rfl) ?_
    rintro (e | ⟨id, tx⟩)
    · exact rfl
    refine follows_stay (fun _ => .quiet rfl) ?_
    rintro (e | hash) <;> exact rfl
  rintro (e | ⟨id, hash⟩) _ rfl
  · exact rfl
  refine follows_stay (fun _ => .request ⟨rfl, rfl, ⟨invoice, amt, ?_, rfl, ?_⟩, ?_⟩) ?_
  · simp only [invoiceOf, hinv, hamt]
  · exact fits_of_mismatch?_eq_none hmis
  · exact addressToPkh_ne_empty hpkh
  · rintro (_ | _)
    · exact nofun
    · exact rfl

theorem follows_handleOfframpRequest (ip : String) (req : OfframpRequest) :
    Follows (Move cfg (.handleOfframpRequest ip req)) (fun _ l' => l' = l)
      (handleOfframpRequest cfg ip req) l := by
  refine follows_stay (fun _ => .quiet rfl) fun allowed => ?_
  split_ifs
  · exact rfl
  · exact rfl
  · exact rfl
  · exact rfl
  refine follows_stay (fun _ => .quiet rfl) fun active => ?_
  split_ifs
  · exact rfl
  refine (follows_requestOfframp ..).bind ?_
  rintro (e | ⟨id, address, hash⟩) _ rfl <;> exact rfl

/-! ## Deposits -/

section

variable {ip tx : String} {id : ℤ}

theorem follows_sendPayment {m : OfframpMapping} {invoice : Bolt11Invoice} {amt : ℕ}
    (hinv : invoiceOf cfg m = some (invoice, amt)) :
    Follows (Move cfg (.handleOfframpDeposit ip ⟨id, tx⟩)) (fun _ l' => l' = .idle)
      (sendPayment invoice (some amt)) (.paying m) := by
  rcases hamt : paymentAmount invoice.amountMilliSatoshis (some amt) with e | amtMsat
  · have hfit : fits invoice amt = false := by simp only [fits, hamt]
    refine follows_perform fun _ => ⟨_, .misfit hinv hfit, ?_⟩
    rw [hamt]
    exact rfl
  · have hfit : fits invoice amt = true := by simp only [fits, hamt]
    refine follows_perform fun _ => ⟨_, .enter hinv hfit, ?_⟩
    rw [hamt]
    refine follows_stay (fun _ => .quiet rfl) fun _ => follows_stay (fun _ => .quiet rfl) fun _ => ?_
    refine follows_perform fun r => ⟨_, .pay hinv, ?_⟩
    rcases r with e | _
    · refine follows_stay (fun _ => .quiet rfl) ?_
      rintro (_ | _)
      · exact nofun
      · exact follows_stay (fun _ => .quiet rfl) fun _ => rfl
    · exact rfl

theorem follows_payOfframp (m : OfframpMapping) :
    Follows (Move cfg (.handleOfframpDeposit ip ⟨id, tx⟩)) (fun _ l' => l' = .idle)
      (payOfframp cfg id m) (if (invoiceOf cfg m).isSome then .paying m else .idle) := by
  unfold payOfframp
  rcases hinv : cfg.bolt11FromStr m.bolt11 with e | invoice
  · simp only [invoiceOf, hinv]
    exact rfl
  rcases hamt : cbtcToMsat m.amountCbtc with _ | amt
  · simp only [invoiceOf, hinv, hamt]
    exact rfl
  have h : invoiceOf cfg m = some (invoice, amt) := by simp only [invoiceOf, hinv, hamt]
  rw [h, if_pos (by rfl)]
  refine (follows_sendPayment h).bind ?_
  rintro (e | _) _ rfl
  · exact follows_stay (fun _ => .fail) fun _ => rfl
  · exact rfl

theorem follows_processOfframpDeposit (htx : tx ≠ "") :
    Follows (Move cfg (.handleOfframpDeposit ip ⟨id, tx⟩)) (fun _ l' => l' = .idle)
      (processOfframpDeposit cfg id tx) .idle := by
  refine follows_perform ?_
  rintro (_ | m)
  · exact ⟨_, .quiet rfl, rfl⟩
  refine ⟨_, .read htx, follows_perform fun existing => ?_⟩
  rcases hused : usedByOther id existing with _ | other
  swap
  · exact ⟨_, .used, rfl⟩
  refine ⟨_, .unused hused, follows_perform ?_⟩
  rintro (_ | _)
  · exact ⟨_, .missed, rfl⟩
  refine ⟨_, .claim, follows_perform ?_⟩
  rintro (e | _ | _)
  · exact ⟨_, .rejected nofun, follows_perform fun _ => ⟨_, .revert, rfl⟩⟩
  · exact ⟨_, .rejected (by simp), follows_perform fun _ => ⟨_, .revert, rfl⟩⟩
  refine ⟨_, .verified, follows_perform ?_⟩
  rintro (_ | _)
  · exact ⟨_, .overtaken, rfl⟩
  have hpay : Follows (Move cfg (.handleOfframpDeposit ip ⟨id, tx⟩)) (fun _ l' => l' = .idle)
      (payOfframp cfg id m) (if (invoiceOf cfg m).isSome then .paying m else .idle) :=
    follows_payOfframp m
  rcases hinv : invoiceOf cfg m with _ | x
  · rw [hinv] at hpay
    exact ⟨_, .unpayable hinv, hpay⟩
  · rw [hinv] at hpay
    exact ⟨_, .record (by rw [hinv]; rfl), hpay⟩

theorem follows_handleOfframpDeposit :
    Follows (Move cfg (.handleOfframpDeposit ip ⟨id, tx⟩)) (fun _ l' => l' = .idle)
      (handleOfframpDeposit cfg ip ⟨id, tx⟩) .idle := by
  refine follows_stay (fun _ => .quiet rfl) fun allowed => ?_
  split_ifs with _ _ htx
  · exact rfl
  · exact rfl
  · exact rfl
  have htx : tx ≠ "" := by
    rintro rfl
    simp at htx
  refine (follows_processOfframpDeposit htx).bind ?_
  rintro (e | _) _ rfl
  · exact rfl
  refine follows_stay (fun _ => .quiet rfl) ?_
  rintro (_ | m) <;> exact rfl

end

/-- The command `sendpayment`. -/
theorem follows_sendpayment (i : String) (amt : Option ℕ) :
    Follows (Move cfg (.sendpayment i amt)) (fun _ l' => l' = l) (sendpayment cfg i amt) l := by
  unfold sendpayment
  rcases cfg.bolt11FromStr i with e | invoice
  · exact rfl
  refine Follows.bind (Q := fun _ l' => l' = l) ?_ fun _ _ h => h
  refine follows_stay (fun _ => .enterCli) fun _ => ?_
  rcases paymentAmount invoice.amountMilliSatoshis amt with e | amtMsat
  · exact rfl
  refine follows_stay (fun _ => .quiet rfl) fun _ => follows_stay (fun _ => .quiet rfl) fun _ => ?_
  refine follows_stay (fun _ => .payCli) ?_
  rintro (e | _)
  · refine follows_stay (fun _ => .quiet rfl) ?_
    rintro (_ | _)
    · exact nofun
    · exact follows_stay (fun _ => .quiet rfl) fun _ => rfl
  · exact rfl

/-! ## The outcome of a payment -/

theorem follows_completeOfframp (h p : String) :
    Follows (Move cfg (.completeOfframp h p)) (fun _ l' => l'.done = true) (completeOfframp h p)
      .idle := by
  refine follows_perform ?_
  rintro (_ | m)
  · exact ⟨_, .quiet rfl, rfl⟩
  refine ⟨_, .found, follows_perform ?_⟩
  rintro (_ | _)
  · exact ⟨_, .notTaken, rfl⟩
  refine ⟨_, .take, follows_stay (fun _ => .advance (Or.inl rfl)) fun _ => ?_⟩
  refine follows_query.bind ?_
  rintro (e | offramp) _ rfl
  · exact follows_last fun _ => ⟨_, .fail, rfl⟩
  refine (follows_submit ?_).bind ?_
  · refine follows_stay (fun _ => .fulfill) ?_
    rintro (e | hex)
    · exact rfl
    · exact follows_last fun _ => ⟨_, .quiet rfl, rfl⟩
  rintro (e | txHash) _ rfl
  · exact follows_last fun _ => ⟨_, .fail, rfl⟩
  · exact follows_last fun _ => ⟨_, .advance (Or.inr rfl), rfl⟩

/-- Cancelling one offramp, for a task that may submit the cancellation. -/
theorem follows_cancelOfframpOnChain {m : OfframpMapping}
    (hm : ∀ hex r, Move cfg c l
      (.operator (.offramp m.offrampId) (.submitTx ⟨.cancelOfframp m.offrampId, hex⟩)) r l) :
    Follows (Move cfg c) (fun _ l' => l' = l) (cancelOfframpOnChain m) l := by
  refine follows_stay (fun _ => .quiet rfl) ?_
  rintro (e | hex)
  · exact rfl
  refine follows_stay (hm hex) ?_
  rintro (e | txHash)
  · exact rfl
  · exact follows_stay (fun _ => .quiet rfl) fun _ => follows_last fun _ => ⟨_, .fail, rfl⟩

theorem follows_handleOfframpPaymentFailed (h : String) :
    Follows (Move cfg (.handleOfframpPaymentFailed h)) (fun _ l' => l' = .idle)
      (handleOfframpPaymentFailed h) .alarmed := by
  have hrest : ∀ (m : OfframpMapping) (msg : String),
      Follows (Move cfg (.handleOfframpPaymentFailed h)) (fun _ l' => l' = .idle) (do
        db (.updateOfframpStatus m.offrampId .failed none none (some msg))
        cancelOfframpOnChain m) .idle := fun m msg =>
    follows_stay (fun _ => .fail) fun _ => follows_cancelOfframpOnChain fun _ _ => .cancelFailed
  refine follows_perform ?_
  rintro (_ | m)
  · exact ⟨_, .unknown, rfl⟩
  by_cases haddr : m.refundAddress = ""
  · refine ⟨_, .nowhere haddr, ?_⟩
    simp only [haddr, ne_eq, not_true_eq_false, if_false]
    exact hrest m _
  · refine ⟨_, .alarm haddr, ?_⟩
    simp only [haddr, ne_eq, not_false_eq_true, if_true]
    refine Follows.bind (Q := fun _ l' => l' = .idle) ?_ fun msg _ hl => hl ▸ hrest m msg
    refine follows_perform ?_
    rintro (e | hex)
    · exact ⟨_, .unsigned, rfl⟩
    refine ⟨_, .refund, follows_perform fun r => ⟨_, .submit, ?_⟩⟩
    rcases r with e | txHash <;> exact rfl

theorem follows_handleLdkEvents (event : LdkEvent) :
    Follows (Move cfg (.handleLdkEvents event)) (fun _ l' => l' = .idle) (handleLdkEvents event)
      (start (.handleLdkEvents event)) := by
  cases event with
  | paymentClaimable h preimage =>
    rcases preimage with _ | preimage
    · exact rfl
    · exact follows_last fun _ => ⟨_, .quiet rfl, rfl⟩
  | paymentClaimed h preimage secret amt =>
    refine follows_stay (fun _ => .quiet rfl) fun _ => follows_stay (fun _ => .quiet rfl) fun _ => ?_
    refine follows_stay (fun _ => .quiet rfl) ?_
    rintro (_ | m)
    · exact rfl
    · exact follows_last fun _ => ⟨_, .spawn rfl, rfl⟩
  | paymentSent id h preimage =>
    rcases id with _ | id
    · exact rfl
    refine follows_stay (fun _ => .quiet rfl) fun _ => follows_stay (fun _ => .quiet rfl) fun _ => ?_
    refine follows_stay (fun _ => .quiet rfl) ?_
    rintro (_ | m)
    · exact rfl
    · exact follows_last fun _ => ⟨_, .spawn rfl, rfl⟩
  | paymentFailed id h =>
    refine follows_stay (fun _ => .quiet rfl) fun _ => follows_stay (fun _ => .quiet rfl) fun _ => ?_
    rcases h with _ | h
    · exact rfl
    · exact follows_last fun _ => ⟨_, .page, rfl⟩

/-! ## Background loops and the startup -/

theorem follows_monitorExpiredSwaps :
    Follows (Move cfg c) (fun _ l' => l' = l) monitorExpiredSwaps l := by
  refine follows_stay (fun _ => .quiet rfl) fun _ => follows_stay (fun _ => .quiet rfl) fun now => ?_
  refine follows_stay (fun _ => .quiet rfl) fun expired => ?_
  refine (follows_forEach expired fun m _ => Free.follows ?_).bind ?_
  · refine only_perform rfl ?_
    rintro (e | hex)
    · trivial
    refine only_perform rfl ?_
    rintro (e | txHash)
    · trivial
    · exact only_last rfl
  · rintro _ _ rfl
    exact follows_last fun _ => ⟨_, .spawn rfl, rfl⟩

theorem follows_monitorExpiredOfframps :
    Follows (Move cfg .monitorExpiredOfframps) (fun _ l' => l'.done = true) monitorExpiredOfframps
      .idle := by
  refine follows_stay (fun _ => .quiet rfl) fun _ => ?_
  refine follows_perform fun now => ⟨_, .time, ?_⟩
  refine follows_perform fun expired => ⟨_, .snapshot, ?_⟩
  refine (follows_forEach expired fun m hm => follows_cancelOfframpOnChain ?_).bind ?_
  · exact fun hex r => .cancel hm
  · rintro _ _ rfl
    exact follows_last fun _ => ⟨_, .spawn rfl, rfl⟩

theorem follows_recoverDepositingOfframps :
    Follows (Move cfg .startLdk) (fun _ l' => ∃ rows, l' = .booting rows)
      recoverDepositingOfframps (.booting []) := by
  refine follows_stay (fun _ => .quiet rfl) fun verifying => ?_
  refine (follows_forEach verifying fun m _ => ?_).bind ?_
  · exact follows_stay (fun _ => .reset) fun _ => rfl
  rintro _ _ rfl
  refine follows_stay (fun _ => .quiet rfl) fun paying => ?_
  refine (follows_forEach paying fun m _ => ?_).bind ?_
  · refine follows_stay (fun _ => .failPaying) ?_
    rintro (_ | _)
    · exact rfl
    · exact follows_last fun _ => ⟨_, .fail, rfl⟩
  rintro _ _ rfl
  refine follows_perform fun stuck => ⟨_, .scan, ?_⟩
  refine (follows_forEach stuck fun m hm => ?_).mono fun _ _ h => ⟨stuck, h⟩
  refine follows_query.bind ?_
  rintro (e | offramp) _ rfl
  · exact follows_last fun _ => ⟨_, .finish hm, rfl⟩
  refine follows_stay (fun _ => .recover hm) ?_
  rintro (e | hex)
  · exact rfl
  refine follows_stay (fun _ => .quiet rfl) ?_
  rintro (e | txHash)
  · exact rfl
  · exact follows_last fun _ => ⟨_, .finish hm, rfl⟩

theorem follows_startLdk :
    Follows (Move cfg .startLdk) (fun _ l' => l' = .idle) (startLdk cfg) (.booting []) := by
  have hrest : ∀ rows, Follows (Move cfg .startLdk) (fun _ l' => l' = .idle) (do
      spawn .monitorExpiredSwaps
      spawn .monitorExpiredOfframps
      serve) (.booting rows) := fun rows =>
    follows_stay (fun _ => .spawn rfl) fun _ => follows_stay (fun _ => .spawn rfl) fun _ =>
      follows_last fun _ => ⟨_, .serve, rfl⟩
  refine (Free.follows free_recoverFulfillingSwaps).bind ?_
  rintro _ _ rfl
  refine follows_recoverDepositingOfframps.bind ?_
  rintro _ _ ⟨rows, rfl⟩
  split_ifs
  · refine (Free.follows free_cancelExpired).bind ?_
    rintro _ _ rfl
    refine (Free.follows free_cancelExpiredOfframps).bind ?_
    rintro _ _ rfl
    exact hrest rows
  · exact hrest rows

/-- A handler run for its effect. -/
theorem follows_discard {p : Relay α} {l₀ : Stage}
    (h : Follows (Move cfg c) (fun _ l' => l' = l) p l₀) :
    Follows (Move cfg c) (fun _ l' => l' = l) (discard p) l₀ :=
  h.bind fun _ _ hl => hl

/-- Every program of the relay keeps to the protocol. -/
theorem body_follows (cfg : Config) (c : Call) :
    Follows (Move cfg c) (fun _ l' => l'.done = true) (body cfg c) (start c) := by
  have idle : ∀ {p : Relay Unit} {l₀ : Stage},
      Follows (Move cfg c) (fun _ l' => l' = .idle) p l₀ →
      Follows (Move cfg c) (fun _ l' => l'.done = true) p l₀ := fun h =>
    h.mono fun _ _ hl => hl ▸ rfl
  cases c with
  | startLdk => exact idle follows_startLdk
  | monitorExpiredSwaps => exact idle follows_monitorExpiredSwaps
  | monitorExpiredOfframps => exact follows_monitorExpiredOfframps
  | handleSwapRequest ip req =>
    exact idle (follows_discard (Free.follows (free_handleSwapRequest ip req)))
  | handleOfframpRequest ip req => exact idle (follows_discard (follows_handleOfframpRequest ip req))
  | handleOfframpDeposit ip req => exact idle (follows_discard follows_handleOfframpDeposit)
  | handleLdkEvents event => exact idle (follows_handleLdkEvents event)
  | fulfillSwap h => exact idle (Free.follows (free_fulfillSwap h))
  | completeOfframp h p => exact follows_completeOfframp h p
  | handleOfframpPaymentFailed h => exact idle (follows_handleOfframpPaymentFailed h)
  | sendpayment i amt => exact idle (follows_sendpayment i amt)
  | cancelExpired => exact idle (Free.follows free_cancelExpired)
  | cancelExpiredOfframps => exact idle (Free.follows free_cancelExpiredOfframps)

end Payout

end LightningRelay
