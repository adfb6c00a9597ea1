import LightningRelay.Footprint

/-!
# The onramp protocol of the tasks

`Stage` is how far a task has got with a swap, and `Move` lists the operations that touch swaps:
which task may perform them in which stage, and the stage after the answer.  `body_follows` is the
main result: every program of the relay keeps to this protocol.
-/

set_option autoImplicit false

namespace LightningRelay

open Async

/-- Operations that the onramp protocol regulates. -/
def Op.onramp : Op → Bool
  | .db (.insert _) | .db (.updateStatus _ _ _) | .db (.transitionStatus _ _ _ _)
  | .db (.getByPaymentHash _) => true
  | .operator (.swap _) (.fulfillInvoice _ _)
  | .operator (.swap _) (.submitTx ⟨.cancelInvoice _, _⟩) => true
  | .ldk (.claimFunds _ _) | .spawn (.fulfillSwap _) | .spawn (.handleLdkEvents _) => true
  | _ => false

namespace Onramp

/-- How far a task has got. -/
inductive Stage where
  | idle
  /-- The handler of PaymentClaimable that has not claimed the payment yet. -/
  | claiming
  /-- `fulfill_swap` that has read its row; that has won it; that has found it not expired. -/
  | read (m : SwapMapping)
  | won (m : SwapMapping)
  | checked (m : SwapMapping)
  | over
  /-- The monitor that has read the clock; that goes through its snapshot. -/
  | timed (now : ℤ)
  | cancelling (expired : List SwapMapping)
  /-- The startup that goes through the swaps in Fulfilling. -/
  | recovering (stuck : List SwapMapping)

/-- The stage in which a task starts. -/
def start : Call → Stage
  | .handleLdkEvents (.paymentClaimable _ (some _)) => .claiming
  | _ => .idle

/-- The operations of the tasks on swaps. -/
inductive Move : Call → Stage → (o : Op) → o.Resp → Stage → Prop where
  | quiet {c : Call} {l : Stage} {o : Op} {r : o.Resp} : o.onramp = false → Move c l o r l
  -- handle_swap_request
  | request {ip : String} {req : SwapRequest} {l : Stage} {m : SwapMapping} {b : Bool} :
      m.status = .pending → Move (.handleSwapRequest ip req) l (.db (.insert m)) b l
  -- PaymentClaimable
  | claim {h preimage : String} :
      Move (.handleLdkEvents (.paymentClaimable h (some preimage))) .claiming
        (.ldk (.claimFunds h preimage)) () .idle
  -- PaymentClaimed
  | look {event : LdkEvent} {l : Stage} {h : String} {r : Option SwapMapping} :
      Move (.handleLdkEvents event) l (.db (.getByPaymentHash h)) r l
  | spawn {h : String} {preimage secret : Option String} {amt : ℕ} {l : Stage} :
      Move (.handleLdkEvents (.paymentClaimed h preimage secret amt)) l (.spawn (.fulfillSwap h)) () l
  -- fulfill_swap
  | read {h : String} {m : SwapMapping} :
      Move (.fulfillSwap h) .idle (.db (.getByPaymentHash h)) (some m) (.read m)
  | unknown {h : String} : Move (.fulfillSwap h) .idle (.db (.getByPaymentHash h)) none .over
  | win {h : String} {m : SwapMapping} :
      Move (.fulfillSwap h) (.read m) (.db (.transitionStatus h .pending .fulfilling none)) true
        (.won m)
  | lose {h : String} {m : SwapMapping} :
      Move (.fulfillSwap h) (.read m) (.db (.transitionStatus h .pending .fulfilling none)) false
        .over
  | check {h : String} {m : SwapMapping} {t : ℤ} : t ≤ m.expiresAt →
      Move (.fulfillSwap h) (.won m) .now t (.checked m)
  | fulfill {h address : String} {m : SwapMapping} {invoice : Invoice}
      {r : Except CardanoError String} :
      Move (.fulfillSwap h) (.checked m) (.operator (.swap h) (.fulfillInvoice invoice address)) r
        (.checked m)
  | settle {h : String} {m : SwapMapping} {l : Stage} {st : SwapStatus} {tx : Option String} :
      l = .won m ∨ l = .checked m → st = .completed ∨ st = .failed →
      Move (.fulfillSwap h) l (.db (.updateStatus h st tx)) () .over
  -- monitor_expired_swaps
  | time {t : ℤ} : Move .monitorExpiredSwaps .idle .now t (.timed t)
  | snapshot {t : ℤ} {rows : List SwapMapping} :
      Move .monitorExpiredSwaps (.timed t) (.db (.getExpiredPending t)) rows (.cancelling rows)
  | cancel {hex : String} {rows : List SwapMapping} {m : SwapMapping}
      {r : Except CardanoError String} : m ∈ rows →
      Move .monitorExpiredSwaps (.cancelling rows)
        (.operator (.swap m.paymentHash) (.submitTx ⟨.cancelInvoice m.invoiceId, hex⟩)) r
        (.cancelling rows)
  | expire {rows : List SwapMapping} {m : SwapMapping} {tx : Option String} : m ∈ rows →
      Move .monitorExpiredSwaps (.cancelling rows)
        (.db (.updateStatus m.paymentHash .expired tx)) () (.cancelling rows)
  -- recover_fulfilling_swaps
  | scan {rows : List SwapMapping} :
      Move .startLdk .idle (.db (.getByStatus .fulfilling)) rows (.recovering rows)
  | recover {rows : List SwapMapping} {m : SwapMapping} {invoice : Invoice} {address : String}
      {r : Except CardanoError String} : m ∈ rows →
      Move .startLdk (.recovering rows)
        (.operator (.swap m.paymentHash) (.fulfillInvoice invoice address)) r (.recovering rows)
  | finish {rows : List SwapMapping} {m : SwapMapping} {tx : Option String} : m ∈ rows →
      Move .startLdk (.recovering rows)
        (.db (.updateStatus m.paymentHash .completed tx)) () (.recovering rows)

/-! ## Programs that the protocol does not restrict -/

/-- A program without regulated operations. -/
abbrev Free {α : Type} (p : Relay α) : Prop := p.Only fun o => o.onramp = false

variable {cfg : Config} {c : Call} {l : Stage} {α : Type}

theorem Free.follows {p : Relay α} (h : Free p) : Follows (Move c) (fun _ l' => l' = l) p l :=
  Prog.Only.follows h fun _ _ => .quiet

theorem onramp_queryState (about : About) : (Op.operator about .queryState).onramp = false := by
  cases about <;> rfl

theorem free_query {about : About} {n d : ℕ} {ctx : String} {find : ContractState → Option α} :
    Free (queryStateWithRetry about n d ctx find) :=
  only_queryStateWithRetry (fun _ => rfl) (onramp_queryState about)

/-- A program whose operations are none of the protocol's. -/
theorem free_of_within {ops : Op → Bool} {p : Relay α} (h : Footprint.Within ops p)
    (hops : ∀ {o : Op}, ops o = true → o.onramp = false) : Free p :=
  h.imp fun _ => hops

section

variable {o : Op}

theorem onramp_of_cancelsExpired (h : o.cancelsExpired = true) : o.onramp = false := by
  unfold Op.cancelsExpired at h
  split at h <;> first | rfl | cases h

theorem onramp_of_requestsOfframp (h : o.requestsOfframp = true) : o.onramp = false := by
  unfold Op.requestsOfframp at h
  split at h <;> first | rfl | cases h

theorem onramp_of_sendsPayment (h : o.sendsPayment = true) : o.onramp = false := by
  unfold Op.sendsPayment at h
  split at h <;> first | rfl | cases h

theorem onramp_of_deposits (h : o.deposits = true) : o.onramp = false := by
  unfold Op.deposits at h
  split at h <;> first | rfl | exact onramp_of_sendsPayment h

theorem onramp_of_completesOfframp (h : o.completesOfframp = true) : o.onramp = false := by
  unfold Op.completesOfframp at h
  split at h <;> first | rfl | cases h

theorem onramp_of_cancelsOfframp (h : o.cancelsOfframp = true) : o.onramp = false := by
  unfold Op.cancelsOfframp at h
  split at h <;> first | rfl | cases h

theorem onramp_of_refunds (h : o.refunds = true) : o.onramp = false := by
  unfold Op.refunds at h
  split at h <;> first | rfl | exact onramp_of_cancelsOfframp h

theorem onramp_of_monitorsOfframps (h : o.monitorsOfframps = true) : o.onramp = false := by
  unfold Op.monitorsOfframps at h
  split at h <;> first | rfl | exact onramp_of_cancelsOfframp h

theorem onramp_of_recoversOfframps (h : o.recoversOfframps = true) : o.onramp = false := by
  unfold Op.recoversOfframps at h
  split at h <;> first | rfl | cases h

end

theorem free_cancelExpired : Free cancelExpired :=
  free_of_within Footprint.cancelExpired onramp_of_cancelsExpired

theorem free_cancelExpiredOfframps : Free cancelExpiredOfframps :=
  free_of_within Footprint.cancelExpiredOfframps onramp_of_cancelsExpired

theorem free_recoverDepositingOfframps : Free recoverDepositingOfframps :=
  free_of_within Footprint.recoverDepositingOfframps onramp_of_recoversOfframps

theorem free_requestSwap (amount : ℤ) (address : String) (expiryMs : ℤ) :
    Free (requestSwap cfg amount address expiryMs) :=
  only_requestSwap (P := fun o => o.onramp = false) (fun _ _ _ => rfl) (fun _ => rfl) rfl
    (fun _ => rfl) _ _ _

theorem free_createInvoiceForSwap (amount : ℤ) (description : String) (expirySecs : ℕ) :
    Free (createInvoiceForSwap amount description expirySecs) :=
  only_createInvoiceForSwap (P := fun o => o.onramp = false) (fun _ _ _ _ => rfl)
    (fun _ _ _ _ => rfl) _ _

/-! ## Swaps -/

theorem follows_handleSwapRequest (ip : String) (req : SwapRequest) :
    Follows (Move (.handleSwapRequest ip req)) (fun _ _ => True) (handleSwapRequest cfg ip req)
      l := by
  refine follows_stay (fun _ => .quiet rfl) fun allowed => ?_
  split_ifs
  · trivial
  · trivial
  · trivial
  refine follows_stay (fun _ => .quiet rfl) fun active => ?_
  dsimp only
  split_ifs
  · trivial
  refine follows_stay (fun _ => .quiet rfl) fun answer => ?_
  rcases insufficient req.amountCbtc answer with _ | available
  swap
  · trivial
  refine (Free.follows (free_requestSwap _ _ _)).bind ?_
  rintro (e | ⟨invoiceId, description, createTxHash⟩) _ rfl
  · trivial
  refine (Free.follows (free_createInvoiceForSwap _ _ _)).bind ?_
  rintro (_ | ⟨bolt11, paymentHash⟩) _ rfl
  · trivial
  refine follows_stay (fun _ => .quiet rfl) fun now => ?_
  refine Follows.bind (Q := fun _ _ => True) ?_ fun _ _ _ => trivial
  refine follows_stay (fun _ => .quiet rfl) fun created => follows_stay (fun _ => .request rfl) ?_
  rintro (_ | _)
  · exact nofun
  · trivial

theorem follows_fulfillSwap (h : String) :
    Follows (Move (.fulfillSwap h)) (fun _ _ => True) (fulfillSwap h) .idle := by
  refine follows_perform ?_
  rintro (_ | m)
  · exact ⟨_, .unknown, trivial⟩
  refine ⟨_, .read, follows_perform ?_⟩
  rintro (_ | _)
  · exact ⟨_, .lose, trivial⟩
  refine ⟨_, .win, follows_perform fun now => ?_⟩
  by_cases hlate : now > m.expiresAt
  · refine ⟨_, .quiet rfl, ?_⟩
    rw [if_pos hlate]
    exact follows_last fun _ => ⟨_, .settle (Or.inl rfl) (Or.inr rfl), trivial⟩
  refine ⟨_, .check (Int.not_lt.1 hlate), ?_⟩
  rw [if_neg hlate]
  refine (Free.follows free_query).bind ?_
  rintro (e | invoice) _ rfl
  · exact follows_last fun _ => ⟨_, .settle (Or.inr rfl) (Or.inr rfl), trivial⟩
  refine (follows_submitContractTxWithRetry (fun _ _ => .quiet rfl) ?_).bind ?_
  · refine follows_stay (fun _ => .fulfill) fun r => ?_
    exact Free.follows (only_thenSubmit r fun _ => rfl)
  · rintro (e | txHash) _ rfl
    · exact follows_last fun _ => ⟨_, .settle (Or.inr rfl) (Or.inr rfl), trivial⟩
    · exact follows_last fun _ => ⟨_, .settle (Or.inr rfl) (Or.inl rfl), trivial⟩

theorem follows_monitorExpiredSwaps :
    Follows (Move .monitorExpiredSwaps) (fun _ _ => True) monitorExpiredSwaps .idle := by
  refine follows_stay (fun _ => .quiet rfl) fun _ => ?_
  refine follows_perform fun now => ⟨_, .time, ?_⟩
  refine follows_perform fun expired => ⟨_, .snapshot, ?_⟩
  refine (follows_forEach expired fun m hm => ?_).bind ?_
  · refine follows_stay (fun _ => .quiet rfl) ?_
    rintro (e | hex)
    · exact rfl
    refine follows_stay (fun _ => .cancel hm) ?_
    rintro (e | txHash)
    · exact rfl
    · exact follows_last fun _ => ⟨_, .expire hm, rfl⟩
  · rintro _ _ rfl
    exact follows_last fun _ => ⟨_, .quiet rfl, trivial⟩

theorem follows_recoverFulfillingSwaps :
    Follows (Move .startLdk) (fun _ _ => True) recoverFulfillingSwaps .idle := by
  refine follows_perform fun stuck => ⟨_, .scan, ?_⟩
  refine (follows_forEach stuck fun m hm => ?_).mono fun _ _ _ => trivial
  refine (Free.follows free_query).bind ?_
  rintro (e | invoice) _ rfl
  · exact follows_last fun _ => ⟨_, .finish hm, rfl⟩
  refine follows_stay (fun _ => .recover hm) ?_
  rintro (e | hex)
  · exact rfl
  refine follows_stay (fun _ => .quiet rfl) ?_
  rintro (e | txHash)
  · exact rfl
  · exact follows_last fun _ => ⟨_, .finish hm, rfl⟩

theorem follows_handleLdkEvents (event : LdkEvent) :
    Follows (Move (.handleLdkEvents event)) (fun _ l => l = .idle) (handleLdkEvents event)
      (start (.handleLdkEvents event)) := by
  cases event with
  | paymentClaimable h preimage =>
    rcases preimage with _ | preimage
    · exact rfl
    · exact follows_last fun _ => ⟨_, .claim, rfl⟩
  | paymentClaimed h preimage secret amt =>
    refine follows_stay (fun _ => .quiet rfl) fun _ => follows_stay (fun _ => .quiet rfl) fun _ => ?_
    refine follows_stay (fun _ => .look) ?_
    rintro (_ | m)
    · exact rfl
    · exact follows_last fun _ => ⟨_, .spawn, rfl⟩
  | paymentSent id h preimage =>
    rcases id with _ | id
    · exact rfl
    refine Free.follows (only_perform rfl fun _ => only_perform rfl fun _ => only_perform rfl ?_)
    rintro (_ | m)
    · trivial
    · exact only_last rfl
  | paymentFailed id h =>
    refine Free.follows (only_perform rfl fun _ => only_perform rfl fun _ => ?_)
    rcases h with _ | h
    · trivial
    · exact only_last rfl

theorem follows_startLdk :
    Follows (Move .startLdk) (fun _ _ => True) (startLdk cfg) .idle := by
  have hspawn : Free (do
      spawn .monitorExpiredSwaps
      spawn .monitorExpiredOfframps
      serve) :=
    only_perform rfl fun _ => only_perform rfl fun _ => only_last rfl
  refine follows_recoverFulfillingSwaps.bind fun _ l _ => ?_
  refine Follows.mono (Free.follows ?_) fun _ _ _ => trivial
  refine free_recoverDepositingOfframps.bind fun _ => ?_
  split_ifs
  · exact free_cancelExpired.bind fun _ => free_cancelExpiredOfframps.bind fun _ => hspawn
  · exact hspawn

/-- Only the handler of PaymentClaimable has a payment to claim. -/
theorem not_claiming_of_move {l' : Stage} {o : Op} {r : o.Resp} (hm : Move c l o r l')
    (hl : l ≠ .claiming) : l' ≠ .claiming := by
  cases hm with
  | quiet | request | look | spawn => exact hl
  | _ => exact nofun

/-- Every program of the relay keeps to the protocol, and claims the payment that it has to claim
before it ends. -/
theorem body_follows (cfg : Config) (c : Call) :
    Follows (Move c) (fun _ l => l ≠ .claiming) (body cfg c) (start c) := by
  have hdone : ∀ {p : Relay Unit}, Follows (Move c) (fun _ _ => True) p .idle →
      Follows (Move c) (fun _ l => l ≠ .claiming) p .idle := fun h =>
    (h.keep (P := (· ≠ .claiming)) nofun not_claiming_of_move).mono fun _ _ hl => hl.2
  have hwithin (h : ∀ {o : Op}, c.performs o = true → o.onramp = false) :
      Follows (Move c) (fun _ l => l ≠ .claiming) (body cfg c) .idle :=
    hdone ((Free.follows (free_of_within (Footprint.body_performs cfg c) h)).mono
      fun _ _ _ => trivial)
  cases c with
  | startLdk => exact hdone follows_startLdk
  | monitorExpiredSwaps => exact hdone follows_monitorExpiredSwaps
  | monitorExpiredOfframps => exact hwithin onramp_of_monitorsOfframps
  | handleSwapRequest ip req =>
    exact hdone ((follows_handleSwapRequest ip req).bind fun _ _ _ => trivial)
  | handleOfframpRequest ip req => exact hwithin onramp_of_requestsOfframp
  | handleOfframpDeposit ip req => exact hwithin onramp_of_deposits
  | handleLdkEvents event =>
    refine (follows_handleLdkEvents event).mono ?_
    rintro _ _ rfl
    exact nofun
  | fulfillSwap h => exact hdone (follows_fulfillSwap h)
  | completeOfframp h p => exact hwithin onramp_of_completesOfframp
  | handleOfframpPaymentFailed h => exact hwithin onramp_of_refunds
  | sendpayment i amt => exact hwithin onramp_of_sendsPayment
  | cancelExpired | cancelExpiredOfframps => exact hwithin onramp_of_cancelsExpired

end Onramp

end LightningRelay
