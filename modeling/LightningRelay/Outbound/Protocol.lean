import LightningRelay.Footprint
import LightningRelay.Outbound.Store

/-!
# Sending and reporting a payment

The protocol by which tasks store the entry of a payment, hand the payment to LDK and mark the entry.
Every program keeps to it (`body_follows`), and `Step` is all that its operations do to the payments.
-/

set_option autoImplicit false

namespace LightningRelay

open Async

namespace Outbound

/-- Where a task stands with a payment: `holding` from the entry to LDK's answer, and to the mark that
follows a refusal, with the write of the entry still to come or done. -/
inductive Stage where
  | idle
  | holding (id : String) (filed : Bool)
  | failing (id : String)
  | sent (id preimage : String)

/-- Operations that concern no outbound payment. -/
def quiet : Op → Bool
  | .ldk (.payForBolt11Invoice _ _) => false
  | .spawn (.handleLdkEvents _) => false
  | o => !o.changesOutbound

/-- What a task may do with outbound payments. -/
inductive Move : Stage → (o : Op) → o.Resp → Stage → Prop where
  | quiet {l : Stage} {o : Op} {r : o.Resp} : quiet o = true → Move l o r l
  | record {id : String} {info : PaymentInfo} : info.status = .pending →
      Move .idle (.store (.insertOutbound id info)) () (.holding id false)
  | write {id : String} {u : Unit} :
      Move (.holding id false) (.persist outboundPaymentsFname) u (.holding id true)
  | pay {invoice : Bolt11Invoice} {amt : Option ℕ} {u : Unit} :
      Move (.holding invoice.paymentHash true) (.ldk (.payForBolt11Invoice invoice amt)) (.ok u) .idle
  | refuse {invoice : Bolt11Invoice} {amt : Option ℕ} {e : String} :
      Move (.holding invoice.paymentHash true) (.ldk (.payForBolt11Invoice invoice amt)) (.error e)
        (.holding invoice.paymentHash true)
  | giveUp {id : String} {b : Bool} : Move (.holding id true) (.store (.failOutbound id)) b .idle
  | report {id : String} {b : Bool} : Move (.failing id) (.store (.failOutbound id)) b .idle
  | succeed {id preimage : String} :
      Move (.sent id preimage) (.store (.succeedOutbound id preimage)) () .idle

/-- Where a task starts. -/
def start : Call → Stage
  | .handleLdkEvents (.paymentFailed id _) => .failing id
  | .handleLdkEvents (.paymentSent (some id) _ preimage) => .sent id preimage
  | _ => .idle

theorem start_eq_idle {c : Call} (h : ∀ event, c ≠ .handleLdkEvents event) : start c = .idle := by
  cases c with
  | handleLdkEvents event => exact absurd rfl (h event)
  | _ => rfl

/-! ## Programs that send payments -/

/-- Tasks that neither send nor report a payment. -/
theorem quiet_of_performs {c : Call} {o : Op} (hevent : ∀ event, c ≠ .handleLdkEvents event)
    (hdeposit : ∀ ip req, c ≠ .handleOfframpDeposit ip req) (hsend : ∀ i amt, c ≠ .sendpayment i amt)
    (h : c.performs o = true) : quiet o = true := by
  cases c with
  | handleLdkEvents event => exact absurd rfl (hevent event)
  | handleOfframpDeposit ip req => exact absurd rfl (hdeposit ip req)
  | sendpayment i amt => exact absurd rfl (hsend i amt)
  | startLdk =>
    cases o with
    | ldk call | store call | spawn call =>
      cases call <;> first | rfl | simp [Call.performs, Op.starts, Op.recoversSwaps,
        Op.recoversOfframps, Op.cancelsExpired] at h
    | _ => rfl
  | _ =>
    cases o with
    | ldk call | store call | spawn call => cases call <;> first | rfl | cases h
    | _ => rfl

section

variable {cfg : Config} {τ : Type} {M : τ → (o : Op) → o.Resp → τ → Prop} {l : τ}
  (hM : ∀ o r, quiet o = true → M l o r l)
  (hsend : ∀ invoice amt, Follows M (fun _ l' => l' = l) (sendPayment invoice amt) l)

include hM hsend in
theorem sends_payOfframp (id : ℤ) (m : OfframpMapping) :
    Follows M (fun _ l' => l' = l) (payOfframp cfg id m) l := by
  unfold payOfframp
  rcases cfg.bolt11FromStr m.bolt11 with e | invoice
  · exact rfl
  rcases cbtcToMsat m.amountCbtc with _ | amt
  · exact rfl
  refine (hsend invoice (some amt)).bind ?_
  rintro (e | _) _ rfl
  · exact follows_stay (fun _ => hM _ _ rfl) fun _ => rfl
  · exact rfl

include hM hsend in
theorem sends_processOfframpDeposit (id : ℤ) (tx : String) :
    Follows M (fun _ l' => l' = l) (processOfframpDeposit cfg id tx) l := by
  refine follows_stay (fun _ => hM _ _ rfl) ?_
  rintro (_ | m)
  · exact rfl
  refine follows_stay (fun _ => hM _ _ rfl) fun existing => ?_
  rcases usedByOther id existing with _ | other
  swap
  · exact rfl
  refine follows_stay (fun _ => hM _ _ rfl) ?_
  rintro (_ | _)
  · exact rfl
  refine follows_stay (fun _ => hM _ _ rfl) ?_
  rintro (e | _ | _)
  · exact follows_stay (fun _ => hM _ _ rfl) fun _ => rfl
  · exact follows_stay (fun _ => hM _ _ rfl) fun _ => rfl
  refine follows_stay (fun _ => hM _ _ rfl) ?_
  rintro (_ | _)
  · exact rfl
  · exact sends_payOfframp hM hsend id m

include hM hsend in
theorem sends_handleOfframpDeposit (ip : String) (req : OfframpDepositRequest) :
    Follows M (fun _ l' => l' = l) (handleOfframpDeposit cfg ip req) l := by
  refine follows_stay (fun _ => hM _ _ rfl) fun allowed => ?_
  split_ifs
  · exact rfl
  · exact rfl
  · exact rfl
  refine (sends_processOfframpDeposit hM hsend _ _).bind ?_
  rintro (e | _) _ rfl
  · exact rfl
  refine follows_stay (fun _ => hM _ _ rfl) ?_
  rintro (_ | m) <;> exact rfl

include hM hsend in
/-- Every program but the handlers of LDK's events is made of `send_payment` and quiet operations. -/
theorem sends_body {c : Call} (hevent : ∀ event, c ≠ .handleLdkEvents event) :
    Follows M (fun _ l' => l' = l) (body cfg c) l := by
  by_cases hdeposit : ∃ ip req, c = .handleOfframpDeposit ip req
  · obtain ⟨ip, req, rfl⟩ := hdeposit
    exact (sends_handleOfframpDeposit hM hsend ip req).bind fun _ _ hl => hl
  by_cases hpay : ∃ i amt, c = .sendpayment i amt
  · obtain ⟨i, amt, rfl⟩ := hpay
    simp only [body, sendpayment]
    rcases cfg.bolt11FromStr i with e | invoice
    · exact rfl
    · exact (hsend invoice amt).bind fun _ _ hl => hl
  refine Prog.Only.follows (Footprint.body_performs cfg c) fun o r ho => hM o r ?_
  refine quiet_of_performs hevent ?_ ?_ ho
  · exact fun ip req heq => hdeposit ⟨ip, req, heq⟩
  · exact fun i amt heq => hpay ⟨i, amt, heq⟩

end

/-! ## The programs keep to the protocol -/

section

variable {cfg : Config}

theorem follows_sendPayment (invoice : Bolt11Invoice) (amt : Option ℕ) :
    Follows Move (fun _ l => l = .idle) (sendPayment invoice amt) .idle := by
  refine follows_stay (fun _ => .quiet rfl) fun _ => ?_
  rcases paymentAmount invoice.amountMilliSatoshis amt with e | amtMsat
  · exact rfl
  refine follows_perform fun _ => ⟨_, .record rfl, follows_perform fun _ => ⟨_, .write, ?_⟩⟩
  refine follows_perform ?_
  rintro (e | _)
  · refine ⟨_, .refuse, follows_perform ?_⟩
    rintro (_ | _)
    · exact ⟨_, .giveUp, nofun⟩
    · exact ⟨_, .giveUp, follows_stay (fun _ => .quiet rfl) fun _ => rfl⟩
  · exact ⟨_, .pay, rfl⟩

theorem follows_handleLdkEvents (event : LdkEvent) :
    Follows Move (fun _ l => l = .idle) (handleLdkEvents event) (start (.handleLdkEvents event)) := by
  cases event with
  | paymentClaimable h preimage =>
    cases preimage with
    | none => exact rfl
    | some p => exact follows_last fun _ => ⟨_, .quiet rfl, rfl⟩
  | paymentClaimed h preimage secret amt =>
    refine follows_stay (fun _ => .quiet rfl) fun _ => follows_stay (fun _ => .quiet rfl) fun _ => ?_
    refine follows_stay (fun _ => .quiet rfl) fun row => ?_
    split_ifs
    · exact follows_last fun _ => ⟨_, .quiet rfl, rfl⟩
    · exact rfl
  | paymentSent id h preimage =>
    cases id with
    | none => exact rfl
    | some id =>
      refine follows_perform fun _ => ⟨_, .succeed, follows_stay (fun _ => .quiet rfl) fun _ => ?_⟩
      refine follows_stay (fun _ => .quiet rfl) fun row => ?_
      split_ifs
      · exact follows_last fun _ => ⟨_, .quiet rfl, rfl⟩
      · exact rfl
  | paymentFailed id h =>
    refine follows_perform fun _ => ⟨_, .report, follows_stay (fun _ => .quiet rfl) fun _ => ?_⟩
    cases h with
    | none => exact rfl
    | some h => exact follows_last fun _ => ⟨_, .quiet rfl, rfl⟩

theorem body_follows (c : Call) : Follows Move (fun _ l => l = .idle) (body cfg c) (start c) := by
  by_cases hevent : ∃ event, c = .handleLdkEvents event
  · obtain ⟨event, rfl⟩ := hevent
    exact follows_handleLdkEvents event
  have hno : ∀ event, c ≠ .handleLdkEvents event := fun event heq => hevent ⟨event, heq⟩
  rw [start_eq_idle hno]
  exact sends_body (fun _ _ => .quiet) follows_sendPayment hno

end

/-! ## What a step does to the payments -/

/-- What the operations of a task do to the payments. -/
inductive Step (p : Payments) : Stage → Payments → Stage → Prop where
  | stay {l : Stage} : Step p l p l
  | write {id : String} : Step p (.holding id false) p (.holding id true)
  | record {id : String} {info : PaymentInfo} : info.status = .pending →
      Step p .idle { p with outbound := (Op.store (.insertOutbound id info)).onOutbound p.outbound }
        (.holding id false)
  | pay {id : String} {payer : Call} :
      Step p (.holding id true)
        { p with attempts := p.attempts ++ [⟨id, payer, none⟩], recent := id :: p.recent } .idle
  | mark {l : Stage} {id : String} : l = .holding id true ∨ l = .failing id →
      Step p l { p with outbound := (Op.store (.failOutbound id)).onOutbound p.outbound } .idle
  | succeed {id preimage : String} :
      Step p (.sent id preimage)
        { p with outbound := (Op.store (.succeedOutbound id preimage)).onOutbound p.outbound } .idle

section

variable {tid : ℕ} {c : Call} {l l' : Stage} {o : Op} {r : o.Resp} {x x' : Durable}
  {sp : Option Call}

theorem payments_eq (he : Durable.Effect tid c o r x x' sp) :
    x'.payments = ⟨o.onAttempts c x.world.attempts r, o.onRecent x.recent r,
      o.onOutbound x.world.outbound⟩ := by
  have hrecent : x'.recent = o.onRecent x.recent r := congrArg Durable.recent he.after
  rw [Durable.payments, Durable.paymentsWith, he.world.attempts, hrecent, he.outbound]

theorem changesOutbound_of_quiet (ho : quiet o = true) : o.changesOutbound = false := by
  cases o with
  | store call => cases call <;> first | rfl | cases ho
  | _ => rfl

theorem payments_of_quiet (ho : quiet o = true) (he : Durable.Effect tid c o r x x' sp) :
    x'.payments = x.payments := by
  rw [payments_eq he]
  cases o with
  | ldk call => cases call <;> first | rfl | cases ho
  | store call => cases call <;> first | rfl | cases ho
  | _ => rfl

theorem step_of_move (he : Durable.Effect tid c o r x x' sp) (hm : Move l o r l') :
    Step x.payments l x'.payments l' := by
  cases hm with
  | quiet ho =>
    rw [payments_of_quiet ho he]
    exact .stay
  | write =>
    rw [payments_of_quiet rfl he]
    exact .write
  | refuse =>
    rw [payments_eq he]
    exact .stay
  | record hst =>
    rw [payments_eq he]
    exact .record hst
  | pay =>
    rw [payments_eq he]
    exact .pay
  | giveUp =>
    rw [payments_eq he]
    exact .mark (Or.inl rfl)
  | report =>
    rw [payments_eq he]
    exact .mark (Or.inr rfl)
  | succeed =>
    rw [payments_eq he]
    exact .succeed

end

end Outbound

end LightningRelay
