import LightningRelay.Async.Permit
import LightningRelay.Payout.Preimage

/-!
# What backs a pool deposit

The relay deposits the user's cBTC to the pool only after the user's Lightning invoice was paid, and a
preimage that it stores is the one that LDK has learned from that payment.  As on the onramp the
evidence passes from hand to hand: LDK reports the payment as sent, the handler of that event starts
`complete_offramp`, which finds the row by the payment hash and marks it, and after a crash the row is
what the recovery acts on.

* `vouchers_valid`: every task has the permits for what it does.
* `pool_deposit_backed`: every FulfillOfframp transaction that is built or submitted, every row that
  is DepositingToPool or Completed, and every stored preimage belongs to a payment that was sent under
  the payment hash of the offramp, and that LDK has reported.
-/

set_option autoImplicit false

namespace LightningRelay

open Async

/-- The offramp for which an operation builds or submits a FulfillOfframp transaction. -/
def Op.depositsToPool? : Op → Option ℤ
  | .operator (.offramp id) (.fulfillOfframp _)
  | .operator (.offramp id) (.submitTx ⟨.fulfillOfframp _, _⟩) => some id
  | _ => none

/-- LDK has sent a payment and learned its preimage, and has reported this. -/
def World.ReportedSent (w : World) (h p : String) : Prop :=
  w.Sent h p ∧ ∃ id, LdkEvent.paymentSent id h p ∈ w.delivered

/-- The statuses of an offramp whose Lightning payment was sent. -/
def OfframpStatus.paid : OfframpStatus → Bool
  | .depositingToPool | .completed => true
  | .awaitingDeposit | .pendingVerification | .payingLightning | .failed => false

namespace Payout

/-- What a task may act on: a payment that was sent, an offramp with the preimage of its payment, and
an offramp whose payment was sent. -/
inductive Voucher where
  | sent (h p : String)
  | proof (id : ℤ) (p : String)
  | paid (id : ℤ)
  deriving DecidableEq

/-- What a voucher stands for. -/
def Voucher.Good (w : World) : Voucher → Prop
  | .sent h p => w.ReportedSent h p
  | .proof id p => ∃ r, w.offramp id = some r ∧ w.ReportedSent r.paymentHash p
  | .paid id => ∃ r p, w.offramp id = some r ∧ w.ReportedSent r.paymentHash p

/-- The calls that are made because a payment was sent. -/
def vouchedBy : Call → List Voucher
  | .completeOfframp h p | .handleLdkEvents (.paymentSent _ h p) => [.sent h p]
  | _ => []

/-- The vouchers that a new status of an offramp needs. -/
def marks (id : ℤ) (st : OfframpStatus) : List Voucher := if st.paid then [.paid id] else []

/-- The vouchers that an operation needs; a row is looked up with the voucher of the call. -/
def vouches (c : Call) : Op → List Voucher
  | .db (.getOfframpByPaymentHash _) => vouchedBy c
  | .db (.insertOfframp m) => marks m.offrampId m.status
  | .db (.updateOfframpStatus id st p _ _) => (p.map (Voucher.proof id)).toList ++ marks id st
  | .db (.transitionOfframpStatus id _ st) => marks id st
  | .db (.transitionOfframpWithCbtcTx id _ _ st) => marks id st
  | .spawn c' => vouchedBy c'
  | o => (o.depositsToPool?.map Voucher.paid).toList

/-- The vouchers for an offramp with the payment hash `h` that a voucher turns into. -/
def Voucher.forOfframp (h : String) (id : ℤ) : Voucher → List Voucher
  | .sent h' p => if h' = h then [.proof id p, .paid id] else []
  | _ => []

/-- The vouchers that an answer gives: for the row with the payment hash of a sent payment, and for
the rows that the recovery finds. -/
def yields (c : Call) : (o : Op) → o.Resp → List Voucher
  | .db (.getOfframpByPaymentHash h), some m => (vouchedBy c).flatMap (Voucher.forOfframp h m.offrampId)
  | .db (.getOfframpsByStatus .depositingToPool), rows =>
    (rows : List OfframpMapping).map fun m => .paid m.offrampId
  | _, _ => []

/-- What the world remembers of the payments that were sent. -/
structure Remembers (w : World) : Prop where
  rows : ∀ id r, w.offramp id = some r → r.status.paid = true → ∃ p, w.ReportedSent r.paymentHash p
  preimages : ∀ id r p, w.offramp id = some r → r.lightningPreimage = some p →
    w.ReportedSent r.paymentHash p
  deposits : ∀ e ∈ w.log, ∀ id, e.op.depositsToPool? = some id →
    ∃ r p, w.offramp id = some r ∧ w.ReportedSent r.paymentHash p

/-- The vouchers as permits. -/
def vouchers : Permits Op Op.Resp World Call Voucher where
  start := vouchedBy
  needs := vouches
  gives := yields
  Good := Voucher.Good
  Shared := Remembers

/-! ## Every task has its vouchers -/

section

variable {cfg : Config} {c : Call} {o : Op} {l : List Voucher} {α : Type}

/-- The program performs only what needs no voucher. -/
abbrev Plain (c : Call) (p : Relay α) : Prop := p.Only fun o => vouches c o = []

theorem Plain.permitted {p : Relay α} (h : Plain c p) : vouchers.Permitted c p l :=
  Permits.permitted_of_only (h.imp fun o ho k hk => by
    rw [show vouchers.needs c o = [] from ho] at hk
    cases hk)

theorem permitted_of_within {ops : Op → Bool} {p : Relay α} (h : Footprint.Within ops p)
    (hops : ∀ {o : Op}, ops o = true → vouches c o = []) : vouchers.Permitted c p l :=
  Plain.permitted (h.imp fun _ => hops)

/-! ### Programs without vouchers -/

theorem plain_handleOfframpRequest {ip : String} {req req' : OfframpRequest} :
    Plain (.handleOfframpRequest ip req') (handleOfframpRequest cfg ip req) := by
  refine only_perform rfl fun allowed => ?_
  split_ifs
  · trivial
  · trivial
  · trivial
  · trivial
  refine only_perform rfl fun active => ?_
  split_ifs
  · trivial
  refine Prog.Only.bind ?_ fun x => by rcases x with e | ⟨id, address, hash⟩ <;> trivial
  unfold requestOfframp
  rcases cfg.bolt11FromStr req.bolt11 with e | invoice
  · trivial
  refine only_perform rfl ?_
  rintro (_ | existing)
  swap
  · trivial
  dsimp only
  split_ifs
  · trivial
  rcases cbtcToMsat req.amountCbtc with _ | amt
  · trivial
  dsimp only
  rcases mismatch? invoice amt with _ | invAmt
  swap
  · trivial
  dsimp only
  rcases addressToPkh cfg req.cardanoAddress with e | pkh
  · trivial
  refine only_perform rfl fun now => (only_submitContractTxWithRetry (fun _ => rfl) ?_).bind ?_
  · refine only_perform rfl ?_
    rintro (e | ⟨id, tx⟩)
    · trivial
    refine only_perform rfl ?_
    rintro (e | hash) <;> trivial
  rintro (e | ⟨id, hash⟩)
  · trivial
  refine only_perform rfl ?_
  rintro (_ | _)
  · exact nofun
  · trivial

theorem vouches_of_sendsPayment (h : o.sendsPayment = true) : vouches c o = [] := by
  unfold Op.sendsPayment at h
  split at h <;> first | rfl | cases h

theorem plain_handleOfframpDeposit {ip : String} {req : OfframpDepositRequest} :
    Plain c (handleOfframpDeposit cfg ip req) := by
  refine only_perform rfl fun allowed => ?_
  split_ifs
  · trivial
  · trivial
  · trivial
  refine Prog.Only.bind ?_ ?_
  swap
  · rintro (e | _)
    · trivial
    refine only_perform rfl ?_
    rintro (_ | m) <;> trivial
  refine only_perform rfl ?_
  rintro (_ | m)
  · trivial
  refine only_perform rfl fun existing => ?_
  rcases usedByOther req.offrampId existing with _ | other
  swap
  · trivial
  refine only_perform rfl ?_
  rintro (_ | _)
  · trivial
  refine only_perform rfl ?_
  rintro (e | _ | _)
  · exact only_perform rfl fun _ => trivial
  · exact only_perform rfl fun _ => trivial
  refine only_perform rfl ?_
  rintro (_ | _)
  · trivial
  unfold payOfframp
  rcases cfg.bolt11FromStr m.bolt11 with e | invoice
  · trivial
  rcases cbtcToMsat m.amountCbtc with _ | amt
  · trivial
  refine ((Footprint.sendPayment _ _).imp fun _ => vouches_of_sendsPayment).bind ?_
  rintro (e | _)
  · exact only_perform rfl fun _ => trivial
  · trivial

theorem plain_cancelOfframpOnChain (m : OfframpMapping) : Plain c (cancelOfframpOnChain m) := by
  refine only_perform rfl ?_
  rintro (e | hex)
  · trivial
  refine only_perform rfl ?_
  rintro (e | txHash)
  · trivial
  · exact only_perform rfl fun _ => only_last rfl

theorem plain_handleOfframpPaymentFailed {h h' : String} :
    Plain (.handleOfframpPaymentFailed h') (handleOfframpPaymentFailed h) := by
  refine only_perform rfl ?_
  rintro (_ | m)
  · trivial
  dsimp only
  split_ifs
  · refine Prog.Only.bind ?_ fun _ => only_perform rfl fun _ => plain_cancelOfframpOnChain m
    refine only_perform rfl ?_
    rintro (e | hex)
    · trivial
    refine only_perform rfl ?_
    rintro (e | txHash) <;> trivial
  · exact only_perform rfl fun _ => plain_cancelOfframpOnChain m

theorem plain_monitorExpiredOfframps : Plain c monitorExpiredOfframps :=
  only_perform rfl fun _ => only_perform rfl fun _ => only_perform rfl fun expired =>
    (only_forEach plain_cancelOfframpOnChain expired).bind fun _ => only_last rfl

section

theorem vouches_of_recoversSwaps (h : o.recoversSwaps = true) : vouches c o = [] := by
  unfold Op.recoversSwaps at h
  split at h <;> first | rfl | cases h

theorem vouches_of_cancelsExpired (h : o.cancelsExpired = true) : vouches c o = [] := by
  unfold Op.cancelsExpired at h
  split at h <;> first | rfl | cases h

theorem vouches_of_monitorsSwaps (h : o.monitorsSwaps = true) : vouches c o = [] := by
  unfold Op.monitorsSwaps at h
  split at h <;> first | rfl | cases h

theorem vouches_of_requestsSwap (h : o.requestsSwap = true) : vouches c o = [] := by
  unfold Op.requestsSwap at h
  split at h <;> first | rfl | cases h

theorem vouches_of_fulfillsSwap (h : o.fulfillsSwap = true) : vouches c o = [] := by
  unfold Op.fulfillsSwap at h
  split at h <;> first | rfl | cases h

end

/-! ### Programs with vouchers -/

/-- What is done to an offramp with a voucher for it, up to its completion. -/
theorem needs_paid {id : ℤ} (h : vouches c o = [.paid id]) (hl : .paid id ∈ l) :
    ∀ k ∈ vouchers.needs c o, k ∈ l := by
  change ∀ k ∈ vouches c o, k ∈ l
  rw [h]
  exact fun _ hk => List.mem_singleton.1 hk ▸ hl

theorem needs_none (h : vouches c o = []) : ∀ k ∈ vouchers.needs c o, k ∈ l := by
  change ∀ k ∈ vouches c o, k ∈ l
  rw [h]
  exact fun _ hk => absurd hk List.not_mem_nil

/-- `complete_offramp` acts on the row that it finds by the hash of its payment. -/
theorem permitted_completeOfframp (h p : String) :
    vouchers.Permitted (.completeOfframp h p) (completeOfframp h p) [.sent h p] := by
  refine Permits.permitted_perform (fun _ hk => hk) ?_
  rintro (_ | m)
  · exact Permits.permitted_pure ()
  have hyields : vouchers.gives (.completeOfframp h p) (.db (.getOfframpByPaymentHash h)) (some m) =
      [.proof m.offrampId p, .paid m.offrampId] := by
    change (if h = h then _ else _) ++ [] = _
    rw [if_pos rfl]
    rfl
  rw [hyields]
  have hpaid : Voucher.paid m.offrampId ∈ [.proof m.offrampId p, .paid m.offrampId, .sent h p] := by
    simp
  have hfail : ∀ e, (db (.updateOfframpStatus m.offrampId .failed none none e)).Only fun o =>
      ∀ k ∈ vouchers.needs (.completeOfframp h p) o,
        k ∈ [.proof m.offrampId p, .paid m.offrampId, .sent h p] :=
    fun _ => only_last (needs_none rfl)
  refine Permits.permitted_of_only (only_perform (needs_paid rfl hpaid) ?_)
  rintro (_ | _)
  · trivial
  refine only_perform ?_ fun _ => (only_queryStateWithRetry (fun _ => needs_none rfl)
    (needs_none rfl)).bind ?_
  · intro k hk
    have hk : k ∈ [Voucher.proof m.offrampId p, Voucher.paid m.offrampId] := hk
    exact List.mem_append_left _ hk
  rintro (e | offramp)
  · exact hfail _
  refine (only_submitContractTxWithRetry (fun _ => needs_none rfl) ?_).bind ?_
  · exact only_perform (needs_paid rfl hpaid) fun r => only_thenSubmit r fun _ => needs_paid rfl hpaid
  · rintro (e | txHash)
    · exact hfail _
    · exact only_last (needs_paid rfl hpaid)

/-- The recovery acts on the rows that it finds. -/
theorem permitted_recoverDepositing (m : OfframpMapping) (hl : .paid m.offrampId ∈ l) :
    vouchers.Permitted c (recoverDepositing m) l := by
  have hdone : (db (.updateOfframpStatus m.offrampId .completed none none none)).Only
      fun o => ∀ k ∈ vouchers.needs c o, k ∈ l := only_last (needs_paid rfl hl)
  refine Permits.permitted_of_only ((only_queryStateWithRetry (fun _ => needs_none rfl)
    (needs_none rfl)).bind ?_)
  rintro (e | offramp)
  · exact hdone
  refine only_perform (needs_paid rfl hl) ?_
  rintro (e | hex)
  · trivial
  refine only_perform (needs_paid rfl hl) ?_
  rintro (e | txHash)
  · trivial
  · exact hdone

theorem permitted_recoverDepositingOfframps :
    vouchers.Permitted c recoverDepositingOfframps l := by
  refine Permits.permitted_perform (needs_none rfl) fun verifying => ?_
  refine (Permits.permitted_forEach verifying fun m _ => ?_).bind fun _ => ?_
  · exact Plain.permitted (only_perform rfl fun _ => trivial)
  refine Permits.permitted_perform (needs_none rfl) fun paying => ?_
  refine (Permits.permitted_forEach paying fun m _ => ?_).bind fun _ => ?_
  · refine Plain.permitted (only_perform rfl ?_)
    rintro (_ | _)
    · trivial
    · exact only_last rfl
  refine Permits.permitted_perform (needs_none rfl) fun stuck => ?_
  refine Permits.permitted_forEach stuck fun m hm => permitted_recoverDepositing m ?_
  exact List.mem_append_left _ (List.mem_map_of_mem hm)

theorem permitted_startLdk : vouchers.Permitted c (startLdk cfg) [] := by
  have hspawn : ∀ l, vouchers.Permitted c (do
      spawn .monitorExpiredSwaps
      spawn .monitorExpiredOfframps
      serve) l := fun l =>
    Plain.permitted (only_perform rfl fun _ => only_perform rfl fun _ => only_last rfl)
  refine (permitted_of_within Footprint.recoverFulfillingSwaps vouches_of_recoversSwaps).bind
    fun _ => permitted_recoverDepositingOfframps.bind fun _ => ?_
  split_ifs
  · exact (permitted_of_within Footprint.cancelExpired vouches_of_cancelsExpired).bind fun _ =>
      (permitted_of_within Footprint.cancelExpiredOfframps vouches_of_cancelsExpired).bind fun _ =>
        hspawn _
  · exact hspawn _

/-- The handler of PaymentSent starts the completion of the payment that it was told of. -/
theorem permitted_handleLdkEvents (event : LdkEvent) :
    vouchers.Permitted (.handleLdkEvents event) (handleLdkEvents event)
      (vouchedBy (.handleLdkEvents event)) := by
  refine Permits.permitted_of_only ?_
  cases event with
  | paymentClaimable h preimage =>
    rcases preimage with _ | preimage
    · trivial
    · exact only_last (needs_none rfl)
  | paymentClaimed h preimage secret amt =>
    refine only_perform (needs_none rfl) fun _ => only_perform (needs_none rfl) fun _ =>
      only_perform (needs_none rfl) ?_
    rintro (_ | m)
    · trivial
    · exact only_last (needs_none rfl)
  | paymentSent id h preimage =>
    rcases id with _ | id
    · trivial
    refine only_perform (needs_none rfl) fun _ => only_perform (needs_none rfl) fun _ =>
      only_perform (fun _ hk => hk) ?_
    rintro (_ | m)
    · trivial
    · exact only_last fun _ hk => hk
  | paymentFailed id h =>
    refine only_perform (needs_none rfl) fun _ => only_perform (needs_none rfl) fun _ => ?_
    rcases h with _ | h
    · trivial
    · exact only_last (needs_none rfl)

theorem body_permitted (cfg : Config) (c : Call) :
    vouchers.Permitted c (body cfg c) (vouchedBy c) := by
  have hperf := Footprint.body_performs cfg c
  cases c with
  | startLdk => exact permitted_startLdk
  | monitorExpiredSwaps => exact permitted_of_within hperf vouches_of_monitorsSwaps
  | monitorExpiredOfframps => exact Plain.permitted plain_monitorExpiredOfframps
  | handleSwapRequest => exact permitted_of_within hperf vouches_of_requestsSwap
  | handleOfframpRequest =>
    exact (Plain.permitted plain_handleOfframpRequest).bind fun _ => Permits.permitted_pure ()
  | handleOfframpDeposit =>
    exact (Plain.permitted plain_handleOfframpDeposit).bind fun _ => Permits.permitted_pure ()
  | handleLdkEvents event => exact permitted_handleLdkEvents event
  | fulfillSwap => exact permitted_of_within hperf vouches_of_fulfillsSwap
  | completeOfframp h p => exact permitted_completeOfframp h p
  | handleOfframpPaymentFailed => exact Plain.permitted plain_handleOfframpPaymentFailed
  | sendpayment => exact permitted_of_within hperf vouches_of_sendsPayment
  | cancelExpired | cancelExpiredOfframps =>
    exact permitted_of_within hperf vouches_of_cancelsExpired

end

/-! ## One step -/

section

variable {tid : ℕ} {c : Call} {o : Op} {a : Answers} {r : o.Resp} {w w' : World} {sp : Option Call}
  {id : ℤ} {h p : String}

theorem reportedSent_effect (he : Effect tid c o r w w' sp) (hs : w.ReportedSent h p) :
    w'.ReportedSent h p := by
  obtain ⟨⟨j, a, ha, hh, ho⟩, hreported⟩ := hs
  obtain ⟨j', hj'⟩ := List.mem_iff_getElem?.1 (he.mem_attempts (List.mem_of_getElem? ha))
  refine ⟨⟨j', a, hj', hh, ho⟩, ?_⟩
  rwa [he.delivered]

/-- LDK does not take a report back. -/
theorem delivered_react {e : Env} {ch : Change Call} (hr : Reaction w e w' ch) {event : LdkEvent}
    (h : event ∈ w.delivered) : event ∈ w'.delivered := by
  cases hr with
  | deliver => exact List.mem_cons_of_mem _ h
  | _ => exact h

theorem reportedSent_react {e : Env} {ch : Change Call} (hr : Reaction w e w' ch) (hs : w.ReportedSent h p) :
    w'.ReportedSent h p := by
  obtain ⟨hsent, id, hid⟩ := hs
  exact ⟨sent_react hr hsent, id, delivered_react hr hid⟩

/-- The completion of an offramp is started by a report. -/
theorem reportedSent_of_react {e : Env} (hr : Reaction w e w' (.spawn c))
    (hc : c = .completeOfframp h p ∨ ∃ i, c = .handleLdkEvents (.paymentSent i h p)) :
    w'.ReportedSent h p := by
  refine ⟨sent_of_react hr hc, ?_⟩
  rcases hc with rfl | ⟨i, rfl⟩
  · rcases hr.spawn with ⟨-, hc⟩ | ⟨_, -, hc, -⟩ <;> cases hc
  · cases hr with
    | request _ hcall => cases hcall
    | deliver => exact ⟨i, List.mem_cons_self⟩

theorem good_mono (he : Effect tid c o r w w' sp) {v : Voucher} (hv : v.Good w) : v.Good w' := by
  cases v with
  | sent h p => exact reportedSent_effect he hv
  | proof id p =>
    obtain ⟨x, hx, hs⟩ := hv
    obtain ⟨y, hy, hsame⟩ := offramp_same he hx
    exact ⟨y, hy, hsame.paymentHash ▸ reportedSent_effect he hs⟩
  | paid id =>
    obtain ⟨x, p, hx, hs⟩ := hv
    obtain ⟨y, hy, hsame⟩ := offramp_same he hx
    exact ⟨y, p, hy, hsame.paymentHash ▸ reportedSent_effect he hs⟩

/-- A row with a paid status had one before, or this operation needs a voucher for it. -/
theorem paid_cases (he : Effect tid c o r w w' sp) {y : OfframpMapping}
    (hy : w'.offramp id = some y) (hst : y.status.paid = true) :
    (∃ x, w.offramp id = some x ∧ Same y x ∧ x.status.paid = true) ∨ .paid id ∈ vouches c o := by
  have hmark : ∀ {st : OfframpStatus} {k : ℤ}, st.paid = true → Voucher.paid k ∈ marks k st :=
    fun h => by simp [marks, h]
  rcases hx : w.offramp id with _ | x
  · right
    obtain ⟨m, rfl, rfl⟩ := he.offramp_of_none hx hy
    have hk : _ = id := SwapDb.offrampId_of_getOfframpById hy
    have hk : m.offrampId = id := hk
    exact hk ▸ hmark hst
  · obtain ⟨z, hz, hcases⟩ := he.offramp_cases hx
    rw [hy] at hz
    obtain rfl := Option.some.inj hz
    rcases hcases with rfl | ⟨st, p, d, e, rfl, rfl⟩ | ⟨n, rfl, rfl⟩ | ⟨tx, n, rfl, rfl⟩
    · exact Or.inl ⟨y, rfl, .refl y, hst⟩
    · exact Or.inr (List.mem_append_right _ (hmark hst))
    · exact Or.inr (hmark hst)
    · exact Or.inr (hmark hst)

/-- A stored preimage was stored before, or this operation needs a voucher for it. -/
theorem stored_cases (he : Effect tid c o r w w' sp) {y : OfframpMapping}
    (hy : w'.offramp id = some y) (hpre : y.lightningPreimage = some p) :
    (∃ x, w.offramp id = some x ∧ Same y x ∧ x.lightningPreimage = some p) ∨
      .proof id p ∈ vouches c o := by
  rcases hx : w.offramp id with _ | x
  · obtain ⟨m, rfl, rfl⟩ := he.offramp_of_none hx hy
    cases hpre
  · obtain ⟨z, hz, hcases⟩ := he.offramp_cases hx
    rw [hy] at hz
    obtain rfl := Option.some.inj hz
    rcases hcases with rfl | ⟨st, q, d, e, rfl, rfl⟩ | ⟨n, rfl, rfl⟩ | ⟨tx, n, rfl, rfl⟩
    · exact Or.inl ⟨y, rfl, .refl y, hpre⟩
    · rcases q with _ | q
      · exact Or.inl ⟨x, rfl, ⟨rfl, rfl, rfl, rfl, rfl, rfl⟩, hpre⟩
      · obtain rfl := Option.some.inj hpre
        exact Or.inr (List.mem_append_left _ (List.mem_singleton_self _))
    · exact Or.inl ⟨x, rfl, ⟨rfl, rfl, rfl, rfl, rfl, rfl⟩, hpre⟩
    · exact Or.inl ⟨x, rfl, ⟨rfl, rfl, rfl, rfl, rfl, rfl⟩, hpre⟩

theorem remembers_move (he : Effect tid c o r w w' sp) (hR : Remembers w)
    (hgood : ∀ k ∈ vouches c o, k.Good w) : Remembers w' := by
  have hgood' : ∀ k ∈ vouches c o, k.Good w' := fun k hk => good_mono he (hgood k hk)
  refine ⟨fun id y hy hst => ?_, fun id y p hy hpre => ?_, fun e hmem id hdep => ?_⟩
  · rcases paid_cases (c := c) he hy hst with ⟨x, hx, hsame, hst⟩ | hv
    · obtain ⟨p, hp⟩ := hR.rows id x hx hst
      exact ⟨p, hsame.paymentHash ▸ reportedSent_effect he hp⟩
    · obtain ⟨z, p, hz, hp⟩ := hgood' _ hv
      rw [hy] at hz
      exact ⟨p, Option.some.inj hz ▸ hp⟩
  · rcases stored_cases (c := c) he hy hpre with ⟨x, hx, hsame, hpre⟩ | hv
    · exact hsame.paymentHash ▸ reportedSent_effect he (hR.preimages id x p hx hpre)
    · obtain ⟨z, hz, hp⟩ := hgood' _ hv
      rw [hy] at hz
      exact Option.some.inj hz ▸ hp
  · rw [he.log] at hmem
    rcases List.mem_cons.1 hmem with rfl | hmem
    · refine hgood' (.paid id) ?_
      change o.depositsToPool? = some id at hdep
      unfold Op.depositsToPool? at hdep
      split at hdep
      · obtain rfl := Option.some.inj hdep
        exact List.mem_singleton_self _
      · obtain rfl := Option.some.inj hdep
        exact List.mem_singleton_self _
      · cases hdep
    · have hv : (Voucher.paid id).Good w := hR.deposits e hmem id hdep
      exact good_mono he hv

/-- The row with the payment hash of a sent payment, and the rows that the recovery finds. -/
theorem yields_good (he : Effect tid c o r w w' sp) (hR : Remembers w)
    (hgood : ∀ k ∈ vouches c o, k.Good w) : ∀ k ∈ yields c o r, k.Good w' := by
  intro k hk
  refine good_mono he ?_
  unfold yields at hk
  split at hk
  next h m =>
    have hans : some m = w.db.getOfframpByPaymentHash h := he.answered
    obtain ⟨hrow, hhash⟩ := SwapDb.getOfframpByPaymentHash_eq_some hans.symm
    obtain ⟨v, hv, hk⟩ := List.mem_flatMap.1 hk
    have hsent := hgood v hv
    cases v with
    | sent h' p =>
      simp only [Voucher.forOfframp] at hk
      split_ifs at hk with heq
      · have hp : w.ReportedSent m.paymentHash p := by
          rw [hhash, ← heq]
          exact hsent
        rcases List.mem_cons.1 hk with rfl | hk
        · exact ⟨m, hrow, hp⟩
        · obtain rfl := List.mem_singleton.1 hk
          exact ⟨m, p, hrow, hp⟩
      · cases hk
    | proof | paid => cases hk
  next rows =>
    obtain ⟨m, hm, rfl⟩ := List.mem_map.1 hk
    have hans : rows = w.db.getOfframpsByStatus .depositingToPool := he.answered
    obtain ⟨hrow, hst⟩ := SwapDb.mem_getOfframpsByStatus.1 (hans ▸ hm)
    obtain ⟨p, hp⟩ := hR.rows _ m hrow (by rw [hst]; rfl)
    exact ⟨m, p, hrow, hp⟩
  next => cases hk

theorem good_react {e : Env} {ch : Change Call} (hr : Reaction w e w' ch) {v : Voucher}
    (hv : v.Good w) : v.Good w' := by
  cases v with
  | sent h p => exact reportedSent_react hr hv
  | proof id p =>
    obtain ⟨x, hx, hs⟩ := hv
    exact ⟨x, (hr.calm.offramp id).trans hx, reportedSent_react hr hs⟩
  | paid id =>
    obtain ⟨x, p, hx, hs⟩ := hv
    exact ⟨x, p, (hr.calm.offramp id).trans hx, reportedSent_react hr hs⟩

theorem remembers_react {e : Env} {ch : Change Call} (hr : Reaction w e w' ch) (hR : Remembers w) :
    Remembers w' := by
  refine ⟨fun id x hx hst => ?_, fun id x p hx hpre => ?_, fun e hmem id hdep => ?_⟩
  · obtain ⟨p, hp⟩ := hR.rows id x (hr.calm.offramp id ▸ hx) hst
    exact ⟨p, reportedSent_react hr hp⟩
  · exact reportedSent_react hr (hR.preimages id x p (hr.calm.offramp id ▸ hx) hpre)
  · obtain ⟨x, p, hx, hp⟩ := hR.deposits e (hr.calm.log ▸ hmem) id hdep
    exact ⟨x, p, (hr.calm.offramp id).trans hx, reportedSent_react hr hp⟩

end

/-! ## All runs -/

theorem vouchers_valid (cfg : Config) (now : ℤ) :
    vouchers.Valid (relay cfg) (fun _ _ => True) (World.fresh cfg now) where
  body c := (body_permitted cfg c).mono fun _ _ _ => trivial
  boot := rfl
  init := by
    refine ⟨fun _ _ h => ?_, fun _ _ _ h => ?_, fun e hmem => absurd hmem List.not_mem_nil⟩ <;>
      cases h
  lasting hp hv := good_mono (effect_of_perform hp) hv
  kept hp hR hgood :=
    ⟨remembers_move (effect_of_perform hp) hR hgood, yields_good (effect_of_perform hp) hR hgood⟩
  spawned {tid c o a w r w' c'} hp k hk := by
    have hsp := (effect_of_perform hp).spawned
    unfold Op.spawns at hsp
    split at hsp
    · obtain rfl := Option.some.inj hsp
      exact hk
    · cases hsp
  abort hp hR := by
    obtain rfl := abort_of_perform hp
    exact ⟨hR.rows, hR.preimages, hR.deposits⟩
  react hr hR := by
    have hre := reaction_of_react hr
    refine ⟨remembers_react hre hR, fun _ => good_react hre, ?_⟩
    rintro c rfl k hk
    have hk : k ∈ vouchedBy c := hk
    unfold vouchedBy at hk
    split at hk
    · obtain rfl := List.mem_singleton.1 hk
      exact reportedSent_of_react hre (Or.inl rfl)
    · obtain rfl := List.mem_singleton.1 hk
      exact reportedSent_of_react hre (Or.inr ⟨_, rfl⟩)
    · cases hk

/-- In every run: when a FulfillOfframp transaction is built or submitted for an offramp, by
`complete_offramp` or by the recovery after a crash, LDK has sent a payment under the payment hash of
the offramp and has reported it; so it has for every offramp that is DepositingToPool or Completed; and a
preimage that is stored is one that LDK has learned from such a payment. -/
theorem pool_deposit_backed {cfg : Config} {now : ℤ} {s : Sys} (hs : Reachable cfg now s) :
    (∀ e ∈ s.world.log, ∀ id, e.op.depositsToPool? = some id →
      ∃ r p, s.world.offramp id = some r ∧ s.world.ReportedSent r.paymentHash p) ∧
    ∀ id r, s.world.offramp id = some r →
      (r.status.paid = true → ∃ p, s.world.ReportedSent r.paymentHash p) ∧
      ∀ p, r.lightningPreimage = some p → s.world.ReportedSent r.paymentHash p := by
  have hR : Remembers s.world := (vouchers_valid cfg now).shared hs
  exact ⟨hR.deposits, fun id r hr => ⟨hR.rows id r hr, fun p => hR.preimages id r p hr⟩⟩

set_option maxRecDepth 100000 in
/-- The first offramp of the devnet is Completed, and its payment was reported as sent. -/
theorem pool_deposit_backed_completed : ∃ s r p, Reachable Devnet.config Devnet.startTime s ∧
    s.world.offramp 1 = some r ∧ r.status = .completed ∧ s.world.ReportedSent r.paymentHash p := by
  obtain ⟨s, hs, hp⟩ := Devnet.reachable_of_after Devnet.completedRun (fun s =>
    (s.world.offramp 1).any fun r => r.status = .completed) (by decide +kernel)
  simp only [Option.any_eq_true, decide_eq_true_eq] at hp
  obtain ⟨r, hr, hst⟩ := hp
  obtain ⟨p, hsent⟩ := ((pool_deposit_backed hs).2 1 r hr).1 (by rw [hst]; rfl)
  exact ⟨s, r, p, hs, hr, hst, hsent⟩

end Payout

end LightningRelay
