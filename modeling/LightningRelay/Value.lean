import LightningRelay.Footprint
import LightningRelay.Panics
import LightningRelay.Payout.Attempts

/-!
# Value is exchanged one to one

A request names an amount of cBTC.  Over all runs, every operation that moves or promises value on
behalf of that request is over exactly this amount, and over 1000 msat for each unit of it on the
Lightning side (`Exact`); the row keeps the amount for good; a swap request whose LM invoice is
accepted goes on to have the BOLT11 invoice created; and a deposit that has moved its row to
PayingLightning goes on to hand the payment to LDK, because neither parsing the invoice again nor
its amount can fail any more (`Onward`).

* `value_sound`: these facts hold in every state of every run, through crashes and recovery.
* `exchanged_one_to_one`: the result.
-/

set_option autoImplicit false

namespace LightningRelay

open Async

/-- A Lightning amount is worth an amount of cBTC: 1000 msat for each unit, within a `u64`. -/
def Worth (amtMsat : ℕ) (amountCbtc : ℤ) : Prop :=
  (amtMsat : ℤ) = 1000 * amountCbtc ∧ amtMsat < 2 ^ 64

theorem worth_of_cbtcToMsat {amountCbtc : ℤ} {amtMsat : ℕ}
    (h : cbtcToMsat amountCbtc = some amtMsat) : Worth amtMsat amountCbtc := by
  unfold cbtcToMsat msatsPerCbtcBaseUnit at h
  split_ifs at h with hpos hfit
  obtain rfl := Option.some.inj h
  exact ⟨by omega, hfit⟩

/-- The amounts that a request may ask for are converted. -/
theorem cbtcToMsat_of_admitted {amountCbtc : ℤ} (hpos : 0 < amountCbtc)
    (hmax : amountCbtc ≤ 10000000000) : cbtcToMsat amountCbtc = some (1000 * amountCbtc).toNat := by
  unfold cbtcToMsat msatsPerCbtcBaseUnit
  rw [if_neg (by omega), if_pos (by omega)]
  congr 1
  omega

namespace Call

/-- The amount that a request of the onramp asks for. -/
def onramp? : Call → Option ℤ
  | .handleSwapRequest _ req => some req.amountCbtc
  | _ => none

/-- The amount that a request of the offramp asks for. -/
def offramp? : Call → Option ℤ
  | .handleOfframpRequest _ req => some req.amountCbtc
  | _ => none

/-- The offramp whose deposit a request announces. -/
def deposit? : Call → Option ℤ
  | .handleOfframpDeposit _ req => some req.offrampId
  | _ => none

end Call

namespace World

/-- The row of the swap is over this amount. -/
def SwapOver (w : World) (paymentHash : String) (amountCbtc : ℤ) : Prop :=
  ∃ r, w.swap paymentHash = some r ∧ r.amountCbtc = amountCbtc

/-- The row of the offramp is over this amount. -/
def OfframpOver (w : World) (id : ℤ) (amountCbtc : ℤ) : Prop :=
  ∃ r, w.offramp id = some r ∧ r.amountCbtc = amountCbtc

end World

/-- What an entry of the log moved or promised is what was asked for: the on-chain entry, the
BOLT11 invoice and the row of a request are over the requested amount, and what is verified, paid
and refunded for an offramp is what its row is over. -/
def Exact (w : World) : Entry → Prop
  | ⟨_, c, .operator _ (.createInvoice amount _ _ _), _⟩ => c.onramp? = some amount
  | ⟨_, c, .ldk (.createBolt11Invoice amtMsat _ _), _⟩ =>
    ∃ amount, c.onramp? = some amount ∧ Worth amtMsat amount
  | ⟨_, c, .store (.insertInbound _ info), _⟩ =>
    ∃ amount amtMsat, c.onramp? = some amount ∧ info.amtMsat = some amtMsat ∧ Worth amtMsat amount
  | ⟨_, c, .db (.insert m), stored⟩ =>
    c.onramp? = some m.amountCbtc ∧ (stored = true → w.SwapOver m.paymentHash m.amountCbtc)
  | ⟨_, c, .operator _ (.createOfframp amount _ _ _), _⟩ => c.offramp? = some amount
  | ⟨_, c, .db (.insertOfframp m), stored⟩ =>
    c.offramp? = some m.amountCbtc ∧ (stored = true → w.OfframpOver m.offrampId m.amountCbtc)
  | ⟨_, _, .operator about (.verifyCbtcReceived _ amount), _⟩ =>
    ∃ id, about = .offramp id ∧ w.OfframpOver id amount
  | ⟨_, _, .operator about (.sendCbtc _ amount), _⟩ =>
    ∃ id, about = .offramp id ∧ w.OfframpOver id amount
  -- the command sendpayment pays what the operator types
  | ⟨_, c, .store (.insertOutbound _ info), _⟩ => ∀ id, c.deposit? = some id →
    ∃ amount amtMsat, w.OfframpOver id amount ∧ info.amtMsat = some amtMsat ∧ Worth amtMsat amount
  | ⟨_, c, .ldk (.payForBolt11Invoice invoice requiredMsat), _⟩ => ∀ id, c.deposit? = some id →
    ∃ amount amtMsat, w.OfframpOver id amount ∧ requiredMsat = some amtMsat ∧
      Worth amtMsat amount ∧ ∀ x, invoice.amountMilliSatoshis = some x → x = amtMsat
  | _ => True

/-- Every entry of the log is exact, and every row is over what the request that stored it asked
for. -/
structure OneToOne (w : World) : Prop where
  exact : ∀ e ∈ w.log, Exact w e
  swaps : ∀ h r, w.swap h = some r → ∃ tid ip req m,
    (⟨tid, .handleSwapRequest ip req, .db (.insert m), true⟩ : Entry) ∈ w.log ∧
      m.paymentHash = h ∧ r.amountCbtc = req.amountCbtc
  offramps : ∀ id r, w.offramp id = some r → ∃ tid ip req m,
    (⟨tid, .handleOfframpRequest ip req, .db (.insertOfframp m), true⟩ : Entry) ∈ w.log ∧
      m.offrampId = id ∧ r.amountCbtc = req.amountCbtc

/-- A swap request whose LM invoice is accepted has one way on: LDK is asked for the BOLT11 invoice,
over what the requested amount is worth.  So has a deposit that moves its row to PayingLightning: it
calls `send_payment` and there records the payment, over what the row is worth, for LDK. -/
structure Onward (w : World) (t : Task Op Op.Resp Call) : Prop where
  created : ∀ ip req hex k, t = ⟨.handleSwapRequest ip req,
      .op (.operator .pool (.submitTx ⟨.createInvoice, hex⟩)) k⟩ →
    ∀ hash, ∃ amtMsat description expirySecs k', Worth amtMsat req.amountCbtc ∧
      k (.ok hash) = .op (.ldk (.createBolt11Invoice amtMsat description expirySecs)) k'
  moved : ∀ ip id tx k, t = ⟨.handleOfframpDeposit ip ⟨id, tx⟩, .op (.db
      (.transitionOfframpWithCbtcTx id tx .pendingVerification .payingLightning)) k⟩ →
    (k true).Next fun o => ∃ r, w.offramp id = some r ∧ o = .enter (.sendPayment r.paymentHash)
  entered : ∀ ip id tx h k, t = ⟨.handleOfframpDeposit ip ⟨id, tx⟩,
      .op (.enter (.sendPayment h)) k⟩ →
    (k ()).Next fun o => ∃ amount amtMsat info, w.OfframpOver id amount ∧ Worth amtMsat amount ∧
      info.amtMsat = some amtMsat ∧ o = .store (.insertOutbound h info)

/-- Operations that carry an amount, and those by which a deposit gets to LDK. -/
def Op.valued : Op → Bool
  | .operator _ (.createInvoice _ _ _ _) | .operator _ (.createOfframp _ _ _ _)
  | .operator _ (.verifyCbtcReceived _ _) | .operator _ (.sendCbtc _ _) => true
  | .ldk (.createBolt11Invoice _ _ _) | .ldk (.payForBolt11Invoice _ _) => true
  | .store (.insertInbound _ _) | .store (.insertOutbound _ _) => true
  | .db (.insert _) | .db (.insertOfframp _) | .db (.transitionOfframpWithCbtcTx _ _ _ _) => true
  | .enter _ => true
  | _ => false

namespace Value

open Payout (invoiceOf fits Same)

/-- `process_offramp_deposit` can pay the invoice of the row. -/
def Ready (cfg : Config) (m : OfframpMapping) : Prop :=
  ∃ invoice amt, invoiceOf cfg m = some (invoice, amt) ∧ fits invoice amt = true

/-- How far a task has got with the row that it works for. -/
inductive Stage where
  | idle
  /-- The row is read; a deposit has moved it to PayingLightning; is inside `send_payment`; has
  recorded the payment. -/
  | read (m : OfframpMapping)
  | moved (m : OfframpMapping)
  | entered (m : OfframpMapping)
  | sending (m : OfframpMapping)
  /-- A deposit has moved a row that it cannot pay. -/
  | stuck

namespace Stage

/-- The row that the task works for. -/
def row? : Stage → Option OfframpMapping
  | .read m | .moved m | .entered m | .sending m => some m
  | .idle | .stuck => none

/-- Stages in which operations without an amount are free. -/
def loose : Stage → Bool
  | .idle | .read _ | .sending _ | .stuck => true
  | .moved _ | .entered _ => false

/-- Stages in which a task may end. -/
def done : Stage → Bool
  | .idle | .read _ | .stuck => true
  | _ => false

theorem loose_of_done {l : Stage} (h : l.done = true) : l.loose = true := by
  cases l <;> first | rfl | cases h

end Stage

/-- The operations of a request that carry its amount. -/
inductive Asks (cfg : Config) : Call → Op → Prop where
  | createInvoice {ip : String} {req : SwapRequest} {about : About} {pkh : String} {t x : ℤ} :
      Asks cfg (.handleSwapRequest ip req) (.operator about (.createInvoice req.amountCbtc pkh t x))
  | invoice {ip : String} {req : SwapRequest} {amt n : ℕ} {d : String} :
      cbtcToMsat req.amountCbtc = some amt →
      Asks cfg (.handleSwapRequest ip req) (.ldk (.createBolt11Invoice amt d n))
  | inbound {ip h : String} {req : SwapRequest} {amt : ℕ} {info : PaymentInfo} :
      cbtcToMsat req.amountCbtc = some amt → info.amtMsat = some amt →
      Asks cfg (.handleSwapRequest ip req) (.store (.insertInbound h info))
  | insert {ip : String} {req : SwapRequest} {m : SwapMapping} : m.amountCbtc = req.amountCbtc →
      Asks cfg (.handleSwapRequest ip req) (.db (.insert m))
  | createOfframp {ip h a : String} {req : OfframpRequest} {about : About} {x : ℤ} :
      Asks cfg (.handleOfframpRequest ip req) (.operator about (.createOfframp req.amountCbtc h a x))
  | insertOfframp {ip : String} {req : OfframpRequest} {m : OfframpMapping} :
      m.amountCbtc = req.amountCbtc → addressToPkh cfg req.cardanoAddress = .ok m.refundAddress →
      Asks cfg (.handleOfframpRequest ip req) (.db (.insertOfframp m))

/-- The operations of the tasks on amounts. -/
inductive Move (cfg : Config) : Call → Stage → (o : Op) → o.Resp → Stage → Prop where
  | quiet {c : Call} {l : Stage} {o : Op} {r : o.Resp} : o.valued = false → l.loose = true →
      Move cfg c l o r l
  | ask {c : Call} {l : Stage} {o : Op} {r : o.Resp} : Asks cfg c o → Move cfg c l o r l
  -- process_offramp_deposit
  | read {ip tx : String} {id : ℤ} {m : OfframpMapping} :
      Move cfg (.handleOfframpDeposit ip ⟨id, tx⟩) .idle (.db (.getOfframpById id)) (some m)
        (.read m)
  | verify {ip tx : String} {id : ℤ} {m : OfframpMapping} {r : Except CardanoError Bool} :
      Move cfg (.handleOfframpDeposit ip ⟨id, tx⟩) (.read m)
        (.operator (.offramp id) (.verifyCbtcReceived tx m.amountCbtc)) r (.read m)
  | move {ip tx : String} {id : ℤ} {m : OfframpMapping} : Ready cfg m →
      Move cfg (.handleOfframpDeposit ip ⟨id, tx⟩) (.read m)
        (.db (.transitionOfframpWithCbtcTx id tx .pendingVerification .payingLightning)) true
        (.moved m)
  | strand {ip tx : String} {id : ℤ} {m : OfframpMapping} : ¬ Ready cfg m →
      Move cfg (.handleOfframpDeposit ip ⟨id, tx⟩) (.read m)
        (.db (.transitionOfframpWithCbtcTx id tx .pendingVerification .payingLightning)) true .stuck
  | overtaken {ip tx : String} {id : ℤ} {m : OfframpMapping} :
      Move cfg (.handleOfframpDeposit ip ⟨id, tx⟩) (.read m)
        (.db (.transitionOfframpWithCbtcTx id tx .pendingVerification .payingLightning)) false
        (.read m)
  | enter {ip tx : String} {id : ℤ} {m : OfframpMapping} {invoice : Bolt11Invoice} {amt : ℕ} :
      invoiceOf cfg m = some (invoice, amt) →
      Move cfg (.handleOfframpDeposit ip ⟨id, tx⟩) (.moved m)
        (.enter (.sendPayment invoice.paymentHash)) () (.entered m)
  | enterStuck {ip tx : String} {id : ℤ} {f : Fn} :
      Move cfg (.handleOfframpDeposit ip ⟨id, tx⟩) .stuck (.enter f) () .stuck
  | note {ip tx : String} {id : ℤ} {m : OfframpMapping} {invoice : Bolt11Invoice} {amt : ℕ}
      {info : PaymentInfo} : invoiceOf cfg m = some (invoice, amt) → info.amtMsat = some amt →
      Move cfg (.handleOfframpDeposit ip ⟨id, tx⟩) (.entered m)
        (.store (.insertOutbound invoice.paymentHash info)) () (.sending m)
  | pay {ip tx : String} {id : ℤ} {m : OfframpMapping} {invoice : Bolt11Invoice} {amt : ℕ}
      {r : Except String Unit} : invoiceOf cfg m = some (invoice, amt) → fits invoice amt = true →
      Move cfg (.handleOfframpDeposit ip ⟨id, tx⟩) (.sending m)
        (.ldk (.payForBolt11Invoice invoice (some amt))) r .idle
  -- the command sendpayment
  | cli {i : String} {amt : Option ℕ} {l : Stage} {o : Op} {r : o.Resp} : o.sendsPayment = true →
      Move cfg (.sendpayment i amt) l o r l
  -- handle_offramp_payment_failed
  | found {h : String} {m : OfframpMapping} :
      Move cfg (.handleOfframpPaymentFailed h) .idle (.db (.getOfframpByPaymentHash h)) (some m)
        (.read m)
  | refund {h : String} {m : OfframpMapping} {r : Except CardanoError String} :
      Move cfg (.handleOfframpPaymentFailed h) (.read m)
        (.operator (.offramp m.offrampId) (.sendCbtc m.refundAddress m.amountCbtc)) r (.read m)

/-! ## The programs -/

section

variable {cfg : Config} {c : Call} {l : Stage} {α : Type}

theorem Asks.valued {o : Op} (h : Asks cfg c o) : o.valued = true := by
  cases h <;> rfl

/-- A program that carries no amount but those of its request. -/
theorem follows_of_asks {p : Relay α} (h : p.Only fun o => o.valued = false ∨ Asks cfg c o)
    (hl : l.loose = true) : Follows (Move cfg c) (fun _ l' => l' = l) p l :=
  Prog.Only.follows h fun _ _ ho => ho.elim (fun hq => .quiet hq hl) .ask

theorem only_handleSwapRequest (ip : String) (req : SwapRequest) :
    (handleSwapRequest cfg ip req).Only fun o =>
      o.valued = false ∨ Asks cfg (.handleSwapRequest ip req) o := by
  refine only_perform (Or.inl rfl) fun allowed => ?_
  split_ifs
  · trivial
  · trivial
  · trivial
  refine only_perform (Or.inl rfl) fun active => ?_
  dsimp only
  split_ifs
  · trivial
  refine only_perform (Or.inl rfl) fun answer => ?_
  rcases insufficient req.amountCbtc answer with _ | available
  swap
  · trivial
  refine (only_requestSwap ?_ ?_ ?_ ?_ _ _ _).bind ?_
  · exact fun _ _ _ => Or.inr .createInvoice
  · exact fun _ => Or.inl rfl
  · exact Or.inl rfl
  · exact fun _ => Or.inl rfl
  rintro (e | ⟨invoiceId, description, createTxHash⟩)
  · trivial
  refine (only_createInvoiceForSwap ?_ ?_ _ _).bind ?_
  · exact fun _ _ _ hamt => Or.inr (.invoice hamt)
  · exact fun _ _ _ hamt => Or.inr (.inbound hamt rfl)
  rintro (_ | ⟨bolt11, paymentHash⟩)
  · trivial
  refine only_perform (Or.inl rfl) fun now => Prog.Only.bind ?_ fun _ => trivial
  refine only_perform (Or.inl rfl) fun created => only_perform (Or.inr (.insert rfl)) ?_
  rintro (_ | _)
  · exact nofun
  · trivial

theorem only_requestOfframp {ip : String} {req : OfframpRequest} (expiryMs : ℤ) :
    (requestOfframp cfg req.bolt11 req.amountCbtc req.cardanoAddress expiryMs).Only fun o =>
      o.valued = false ∨ Asks cfg (.handleOfframpRequest ip req) o := by
  unfold requestOfframp
  rcases cfg.bolt11FromStr req.bolt11 with e | invoice
  · trivial
  refine only_perform (Or.inl rfl) ?_
  rintro (_ | existing)
  swap
  · trivial
  dsimp only
  split_ifs
  · trivial
  rcases cbtcToMsat req.amountCbtc with _ | amt
  · trivial
  dsimp only
  rcases mismatch? invoice amt with _ | invAmt
  swap
  · trivial
  dsimp only
  rcases hpkh : addressToPkh cfg req.cardanoAddress with e | pkh
  · trivial
  refine only_perform (Or.inl rfl) fun now => ?_
  refine (only_submitContractTxWithRetry (fun _ => Or.inl rfl) ?_).bind ?_
  · refine only_perform (Or.inr .createOfframp) ?_
    rintro (e | ⟨id, tx⟩)
    · trivial
    refine only_perform (Or.inl rfl) ?_
    rintro (e | hash) <;> trivial
  rintro (e | ⟨id, hash⟩)
  · trivial
  refine only_perform (Or.inr (.insertOfframp rfl hpkh)) ?_
  rintro (_ | _)
  · exact nofun
  · trivial

theorem only_handleOfframpRequest (ip : String) (req : OfframpRequest) :
    (handleOfframpRequest cfg ip req).Only fun o =>
      o.valued = false ∨ Asks cfg (.handleOfframpRequest ip req) o := by
  refine only_perform (Or.inl rfl) fun allowed => ?_
  split_ifs
  · trivial
  · trivial
  · trivial
  · trivial
  refine only_perform (Or.inl rfl) fun active => ?_
  split_ifs
  · trivial
  refine (only_requestOfframp _).bind ?_
  rintro (e | ⟨id, address, hash⟩) <;> trivial

theorem invoiceOf_eq_some {m : OfframpMapping} {invoice : Bolt11Invoice} {amt : ℕ} :
    invoiceOf cfg m = some (invoice, amt) ↔
      cfg.bolt11FromStr m.bolt11 = .ok invoice ∧ cbtcToMsat m.amountCbtc = some amt := by
  unfold invoiceOf
  rcases cfg.bolt11FromStr m.bolt11 with e | invoice' <;>
    rcases cbtcToMsat m.amountCbtc with _ | amt' <;> simp

theorem paymentAmount_eq {x : Option ℕ} {amt amtMsat : ℕ}
    (h : paymentAmount x (some amt) = .ok amtMsat) :
    amtMsat = amt ∧ ∀ y, x = some y → y = amt := by
  rcases x with _ | y
  · exact ⟨(Except.ok.inj h).symm, nofun⟩
  · simp only [paymentAmount] at h
    split_ifs at h with hne
    obtain rfl := Except.ok.inj h
    have hyamt : y = amt := not_not.1 hne
    exact ⟨hyamt, fun z hz => (Option.some.inj hz) ▸ hyamt⟩

theorem paymentAmount_of_fits {invoice : Bolt11Invoice} {amt : ℕ} (h : fits invoice amt = true) :
    paymentAmount invoice.amountMilliSatoshis (some amt) = .ok amt := by
  unfold fits at h
  rcases hp : paymentAmount invoice.amountMilliSatoshis (some amt) with e | amtMsat
  · rw [hp] at h
    cases h
  · rw [(paymentAmount_eq hp).1]

theorem fits_amount {invoice : Bolt11Invoice} {amt : ℕ} (h : fits invoice amt = true) {x : ℕ}
    (hx : invoice.amountMilliSatoshis = some x) : x = amt :=
  (paymentAmount_eq (paymentAmount_of_fits h)).2 x hx

section

variable {ip tx : String} {id : ℤ}

theorem follows_sendPayment {m : OfframpMapping} {invoice : Bolt11Invoice} {amt : ℕ}
    (hinv : invoiceOf cfg m = some (invoice, amt)) (hfit : fits invoice amt = true) :
    Follows (Move cfg (.handleOfframpDeposit ip ⟨id, tx⟩)) (fun _ l' => l' = .idle)
      (sendPayment invoice (some amt)) (.moved m) := by
  refine follows_perform fun _ => ⟨_, .enter hinv, ?_⟩
  rw [paymentAmount_of_fits hfit]
  refine follows_perform fun _ => ⟨_, .note hinv rfl, ?_⟩
  refine follows_stay (fun _ => .quiet rfl rfl) fun _ => ?_
  refine follows_perform fun r => ⟨_, .pay hinv hfit, ?_⟩
  rcases r with e | _
  · refine follows_stay (fun _ => .quiet rfl rfl) ?_
    rintro (_ | _)
    · exact nofun
    · exact follows_stay (fun _ => .quiet rfl rfl) fun _ => rfl
  · exact rfl

/-- `send_payment` on an invoice that asks for another amount. -/
theorem follows_sendPayment_stuck {invoice : Bolt11Invoice} {amt : ℕ}
    (hfit : ¬ fits invoice amt = true) :
    Follows (Move cfg (.handleOfframpDeposit ip ⟨id, tx⟩)) (fun _ l' => l' = .stuck)
      (sendPayment invoice (some amt)) .stuck := by
  rcases hamt : paymentAmount invoice.amountMilliSatoshis (some amt) with e | amtMsat
  · refine follows_stay (fun _ => .enterStuck) fun _ => ?_
    rw [hamt]
    exact rfl
  · exact absurd (by simp only [fits, hamt]) hfit

theorem follows_payOfframp {m : OfframpMapping} (hready : Ready cfg m) :
    Follows (Move cfg (.handleOfframpDeposit ip ⟨id, tx⟩)) (fun _ l' => l' = .idle)
      (payOfframp cfg id m) (.moved m) := by
  obtain ⟨invoice, amt, hinv, hfit⟩ := hready
  obtain ⟨hparse, hamt⟩ := invoiceOf_eq_some.1 hinv
  unfold payOfframp
  simp only [hparse, hamt]
  refine (follows_sendPayment hinv hfit).bind ?_
  rintro (e | _) _ rfl
  · exact follows_stay (fun _ => .quiet rfl rfl) fun _ => rfl
  · exact rfl

theorem follows_payOfframp_stuck {m : OfframpMapping} (hready : ¬ Ready cfg m) :
    Follows (Move cfg (.handleOfframpDeposit ip ⟨id, tx⟩)) (fun _ l' => l' = .stuck)
      (payOfframp cfg id m) .stuck := by
  unfold payOfframp
  rcases hparse : cfg.bolt11FromStr m.bolt11 with e | invoice
  · exact rfl
  rcases hamt : cbtcToMsat m.amountCbtc with _ | amt
  · exact rfl
  have hfit : ¬ fits invoice amt = true := fun hfit =>
    hready ⟨invoice, amt, invoiceOf_eq_some.2 ⟨hparse, hamt⟩, hfit⟩
  refine (follows_sendPayment_stuck hfit).bind ?_
  rintro (e | _) _ rfl
  · exact follows_stay (fun _ => .quiet rfl rfl) fun _ => rfl
  · exact rfl

theorem follows_processOfframpDeposit :
    Follows (Move cfg (.handleOfframpDeposit ip ⟨id, tx⟩)) (fun _ l' => l'.done = true)
      (processOfframpDeposit cfg id tx) .idle := by
  refine follows_perform ?_
  rintro (_ | m)
  · exact ⟨_, .quiet rfl rfl, rfl⟩
  refine ⟨_, .read, follows_stay (fun _ => .quiet rfl rfl) fun existing => ?_⟩
  rcases usedByOther id existing with _ | other
  swap
  · exact rfl
  refine follows_stay (fun _ => .quiet rfl rfl) ?_
  rintro (_ | _)
  · exact rfl
  refine follows_stay (fun _ => .verify) ?_
  rintro (e | _ | _)
  · exact follows_stay (fun _ => .quiet rfl rfl) fun _ => rfl
  · exact follows_stay (fun _ => .quiet rfl rfl) fun _ => rfl
  refine follows_perform ?_
  rintro (_ | _)
  · exact ⟨_, .overtaken, rfl⟩
  by_cases hready : Ready cfg m
  · exact ⟨_, .move hready, (follows_payOfframp hready).mono fun _ _ hl => hl ▸ rfl⟩
  · exact ⟨_, .strand hready, (follows_payOfframp_stuck hready).mono fun _ _ hl => hl ▸ rfl⟩

theorem follows_handleOfframpDeposit :
    Follows (Move cfg (.handleOfframpDeposit ip ⟨id, tx⟩)) (fun _ l' => l'.done = true)
      (handleOfframpDeposit cfg ip ⟨id, tx⟩) .idle := by
  refine follows_stay (fun _ => .quiet rfl rfl) fun allowed => ?_
  split_ifs
  · exact rfl
  · exact rfl
  · exact rfl
  refine follows_processOfframpDeposit.bind ?_
  rintro (e | _) l hl
  · exact hl
  refine follows_stay (fun _ => .quiet rfl (Stage.loose_of_done hl)) ?_
  rintro (_ | m) <;> exact hl

end

theorem valued_of_cancelsOfframp {o : Op} (h : o.cancelsOfframp = true) : o.valued = false := by
  unfold Op.cancelsOfframp at h
  split at h <;> first | rfl | cases h

theorem follows_handleOfframpPaymentFailed (h : String) :
    Follows (Move cfg (.handleOfframpPaymentFailed h)) (fun _ l' => l'.done = true)
      (handleOfframpPaymentFailed h) .idle := by
  have hrest : ∀ (m : OfframpMapping) (msg : String),
      Follows (Move cfg (.handleOfframpPaymentFailed h)) (fun _ l' => l'.done = true) (do
        db (.updateOfframpStatus m.offrampId .failed none none (some msg))
        cancelOfframpOnChain m) (.read m) := by
    intro m msg
    refine follows_stay (fun _ => .quiet rfl rfl) fun _ => ?_
    refine (Prog.Only.follows (Footprint.cancelOfframpOnChain m) fun _ _ ho => ?_).mono
      fun _ _ hl => hl ▸ rfl
    exact .quiet (valued_of_cancelsOfframp ho) rfl
  refine follows_perform ?_
  rintro (_ | m)
  · exact ⟨_, .quiet rfl rfl, rfl⟩
  refine ⟨_, .found, ?_⟩
  dsimp only
  split_ifs
  · refine Follows.bind (Q := fun _ l' => l' = .read m) ?_ fun msg _ hl => hl ▸ hrest m msg
    refine follows_stay (fun _ => .refund) ?_
    rintro (e | hex)
    · exact rfl
    refine follows_stay (fun _ => .quiet rfl rfl) ?_
    rintro (e | txHash) <;> exact rfl
  · exact hrest m _

/-- Tasks that carry no amounts. -/
def plain : Call → Bool
  | .handleSwapRequest _ _ | .handleOfframpRequest _ _ | .handleOfframpDeposit _ _
  | .handleOfframpPaymentFailed _ | .sendpayment _ _ => false
  | _ => true

theorem valued_of_performs {o : Op} (hc : plain c = true) (h : c.performs o = true) :
    o.valued = false := by
  cases c with
  | startLdk =>
    refine Op.starts_cases (P := fun o => o.valued = false) h (fun h => ?_) (fun h => ?_)
      (fun h => ?_) rfl rfl rfl
    · unfold Op.recoversSwaps at h
      split at h <;> first | rfl | cases h
    · unfold Op.recoversOfframps at h
      split at h <;> first | rfl | cases h
    · unfold Op.cancelsExpired at h
      split at h <;> first | rfl | cases h
  | monitorExpiredSwaps =>
    simp only [Call.performs, Op.monitorsSwaps] at h
    split at h <;> first | rfl | cases h
  | monitorExpiredOfframps =>
    simp only [Call.performs, Op.monitorsOfframps] at h
    split at h <;> first | rfl | exact valued_of_cancelsOfframp h
  | handleLdkEvents event =>
    simp only [Call.performs, Op.handlesEvent] at h
    split at h <;> first | rfl | cases h
  | fulfillSwap _ =>
    simp only [Call.performs, Op.fulfillsSwap] at h
    split at h <;> first | rfl | cases h
  | completeOfframp _ _ =>
    simp only [Call.performs, Op.completesOfframp] at h
    split at h <;> first | rfl | cases h
  | cancelExpired | cancelExpiredOfframps =>
    simp only [Call.performs, Op.cancelsExpired] at h
    split at h <;> first | rfl | cases h
  | _ => cases hc

/-- Every program of the relay keeps to the protocol. -/
theorem body_follows (cfg : Config) (c : Call) :
    Follows (Move cfg c) (fun _ l' => l'.done = true) (body cfg c) .idle := by
  have hidle : ∀ {p : Relay Unit}, Follows (Move cfg c) (fun _ l' => l' = .idle) p .idle →
      Follows (Move cfg c) (fun _ l' => l'.done = true) p .idle := fun h =>
    h.mono fun _ _ hl => hl ▸ rfl
  have hplain (hc : plain c = true) :
      Follows (Move cfg c) (fun _ l' => l'.done = true) (body cfg c) .idle :=
    hidle (Prog.Only.follows (Footprint.body_performs cfg c) fun _ _ ho =>
      .quiet (valued_of_performs hc ho) rfl)
  cases c with
  | handleSwapRequest ip req =>
    exact hidle (follows_of_asks ((only_handleSwapRequest ip req).bind fun _ => trivial) rfl)
  | handleOfframpRequest ip req =>
    exact hidle (follows_of_asks ((only_handleOfframpRequest ip req).bind fun _ => trivial) rfl)
  | handleOfframpDeposit ip req => exact follows_handleOfframpDeposit.bind fun _ _ hl => hl
  | handleOfframpPaymentFailed h => exact follows_handleOfframpPaymentFailed h
  | sendpayment i amt =>
    exact hidle (Prog.Only.follows (Footprint.sendpayment cfg i amt) fun _ _ ho => .cli ho)
  | _ => exact hplain rfl

end

/-! ## One move -/

/-- What a task knows of the row that it works for. -/
structure Knows (w : World) (c : Call) (l : Stage) : Prop where
  row : ∀ m, l.row? = some m → w.Matches m.offrampId m
  deposit : ∀ id m, c.deposit? = some id → l.row? = some m → m.offrampId = id
  stuck : l ≠ .stuck

section

variable {cfg : Config} {tid : ℕ} {c : Call} {l l' : Stage} {o : Op} {r : o.Resp} {w w' : World}
  {sp : Option Call}

theorem swapOver_mono (he : Effect tid c o r w w' sp) {h : String} {a : ℤ} (hw : w.SwapOver h a) :
    w'.SwapOver h a := by
  obtain ⟨x, hx, rfl⟩ := hw
  obtain ⟨y, hy, rfl | ⟨st, tx, -, rfl⟩ | ⟨n, tx, -, rfl⟩⟩ := he.swap_cases hx
  · exact ⟨y, hy, rfl⟩
  · exact ⟨_, hy, rfl⟩
  · exact ⟨_, hy, rfl⟩

theorem offrampOver_mono (he : Effect tid c o r w w' sp) {id a : ℤ} (hw : w.OfframpOver id a) :
    w'.OfframpOver id a := by
  obtain ⟨x, hx, rfl⟩ := hw
  obtain ⟨y, hy, hs⟩ := Payout.offramp_same he hx
  exact ⟨y, hy, hs.amountCbtc⟩

theorem matches_mono (he : Effect tid c o r w w' sp) {id : ℤ} {m : OfframpMapping}
    (hw : w.Matches id m) : w'.Matches id m := by
  obtain ⟨x, hx, hs⟩ := hw
  obtain ⟨y, hy, hs'⟩ := Payout.offramp_same he hx
  exact ⟨y, hy, hs'.trans hs⟩

theorem exact_mono (hswap : ∀ {h a}, w.SwapOver h a → w'.SwapOver h a)
    (hofframp : ∀ {id a}, w.OfframpOver id a → w'.OfframpOver id a) {e : Entry}
    (h : Exact w e) : Exact w' e := by
  obtain ⟨tid, c, o, r⟩ := e
  cases o with
  | db q =>
    cases q with
    | insert m => exact ⟨h.1, fun hb => hswap (h.2 hb)⟩
    | insertOfframp m => exact ⟨h.1, fun hb => hofframp (h.2 hb)⟩
    | _ => trivial
  | operator about q =>
    cases q with
    | createInvoice | createOfframp => exact h
    | verifyCbtcReceived | sendCbtc =>
      obtain ⟨id, hid, hover⟩ := h
      exact ⟨id, hid, hofframp hover⟩
    | _ => trivial
  | ldk q =>
    cases q with
    | createBolt11Invoice => exact h
    | payForBolt11Invoice =>
      intro id hid
      obtain ⟨a, amt, hover, hrest⟩ := h id hid
      exact ⟨a, amt, hofframp hover, hrest⟩
    | claimFunds => trivial
  | store q =>
    cases q with
    | insertInbound => exact h
    | insertOutbound =>
      intro id hid
      obtain ⟨a, amt, hover, hrest⟩ := h id hid
      exact ⟨a, amt, hofframp hover, hrest⟩
    | _ => trivial
  | _ => trivial

theorem exact_of_not_valued (h : o.valued = false) : Exact w ⟨tid, c, o, r⟩ := by
  cases o with
  | db q => cases q <;> trivial
  | operator about q => cases q <;> trivial
  | ldk q => cases q <;> trivial
  | store q => cases q <;> trivial
  | _ => trivial

/-- A row that was stored is there. -/
theorem swapOver_of_insert {m : SwapMapping} {stored : Bool}
    (he : Effect tid c (.db (.insert m)) stored w w' sp) (hb : stored = true) :
    w'.SwapOver m.paymentHash m.amountCbtc := by
  have hnone : w.swap m.paymentHash = none :=
    SwapDb.insert_fst_iff.1 (he.answered.symm.trans hb)
  refine ⟨{ m with cardanoTxHash := none }, ?_, rfl⟩
  rw [he.swap, hnone]
  simp only [Op.onSwap, DbCall.onSwap, if_true, Option.none_or]

theorem offrampOver_of_insert {m : OfframpMapping} {stored : Bool}
    (he : Effect tid c (.db (.insertOfframp m)) stored w w' sp) (hb : stored = true) :
    w'.OfframpOver m.offrampId m.amountCbtc := by
  have hnone : w.offramp m.offrampId = none :=
    SwapDb.insertOfframp_fst_iff.1 (he.answered.symm.trans hb)
  refine ⟨{ m with lightningPreimage := none, depositTxHash := none, errorMessage := none }, ?_, rfl⟩
  rw [he.offramp, hnone]
  simp only [Op.onOfframp, DbCall.onOfframp, if_true, Option.none_or]

theorem exact_of_asks (he : Effect tid c o r w w' sp) (h : Asks cfg c o) :
    Exact w' ⟨tid, c, o, r⟩ := by
  cases h with
  | createInvoice | createOfframp => exact rfl
  | invoice hamt => exact ⟨_, rfl, worth_of_cbtcToMsat hamt⟩
  | inbound hamt hinfo => exact ⟨_, _, rfl, hinfo, worth_of_cbtcToMsat hamt⟩
  | insert hm => exact ⟨congrArg some hm.symm, swapOver_of_insert he⟩
  | insertOfframp hm _ => exact ⟨congrArg some hm.symm, offrampOver_of_insert he⟩

theorem Knows.over (hK : Knows w c l) {m : OfframpMapping} (hl : l.row? = some m) :
    w.OfframpOver m.offrampId m.amountCbtc := by
  obtain ⟨x, hx, hs⟩ := hK.row m hl
  exact ⟨x, hx, hs.amountCbtc⟩

/-- What a task does is exact. -/
theorem exact_of_move (he : Effect tid c o r w w' sp) (hm : Move cfg c l o r l')
    (hK : Knows w c l) : Exact w' ⟨tid, c, o, r⟩ := by
  cases hm with
  | quiet hq => exact exact_of_not_valued hq
  | ask h => exact exact_of_asks he h
  | verify =>
    obtain rfl := hK.deposit _ _ rfl rfl
    exact ⟨_, rfl, offrampOver_mono he (hK.over rfl)⟩
  | refund => exact ⟨_, rfl, offrampOver_mono he (hK.over rfl)⟩
  | note hinv hinfo =>
    rintro _ ⟨⟩
    obtain rfl := hK.deposit _ _ rfl rfl
    exact ⟨_, _, offrampOver_mono he (hK.over rfl), hinfo,
      worth_of_cbtcToMsat (invoiceOf_eq_some.1 hinv).2⟩
  | pay hinv hfit =>
    rintro _ ⟨⟩
    obtain rfl := hK.deposit _ _ rfl rfl
    exact ⟨_, _, offrampOver_mono he (hK.over rfl), rfl,
      worth_of_cbtcToMsat (invoiceOf_eq_some.1 hinv).2, fun _ => fits_amount hfit⟩
  | cli hs =>
    cases o with
    | ldk q => cases q <;> first | exact fun _ hid => nomatch hid | cases hs
    | store q => cases q <;> first | trivial | exact fun _ hid => nomatch hid
    | db | operator => cases hs
    | _ => trivial
  | _ => trivial

/-- Only a request stores a swap. -/
theorem request_of_insert {m : SwapMapping} {b : Bool} (hm : Move cfg c l (.db (.insert m)) b l') :
    ∃ ip req, c = .handleSwapRequest ip req ∧ m.amountCbtc = req.amountCbtc := by
  cases hm with
  | quiet hq => cases hq
  | ask h =>
    cases h with
    | insert hm => exact ⟨_, _, rfl, hm⟩
  | cli hs => cases hs

/-- Only a request stores an offramp. -/
theorem request_of_insertOfframp {m : OfframpMapping} {b : Bool}
    (hm : Move cfg c l (.db (.insertOfframp m)) b l') :
    ∃ ip req, c = .handleOfframpRequest ip req ∧ m.amountCbtc = req.amountCbtc ∧
      addressToPkh cfg req.cardanoAddress = .ok m.refundAddress := by
  cases hm with
  | quiet hq => cases hq
  | ask h =>
    cases h with
    | insertOfframp hm hpkh => exact ⟨_, _, rfl, hm, hpkh⟩
  | cli hs => cases hs

theorem oneToOne_move (he : Effect tid c o r w w' sp) (hm : Move cfg c l o r l')
    (hK : Knows w c l) (hO : OneToOne w) : OneToOne w' where
  exact e hmem := by
    rw [he.log] at hmem
    rcases List.mem_cons.1 hmem with rfl | hmem
    · exact exact_of_move he hm hK
    · exact exact_mono (swapOver_mono he) (offrampOver_mono he) (hO.exact e hmem)
  swaps h y hy := by
    rcases hx : w.swap h with _ | x
    · -- the row was stored by this operation
      obtain ⟨m, rfl, rfl⟩ := he.swap_of_none hx hy
      obtain ⟨ip, req, rfl, hamt⟩ := request_of_insert hm
      have hkey := SwapDb.paymentHash_of_getByPaymentHash hy
      have hb : r = true := he.answered.trans (SwapDb.insert_fst_iff.2 (hkey ▸ hx))
      refine ⟨tid, ip, req, m, ?_, hkey, hamt⟩
      rw [he.log, ← hb]
      exact List.mem_cons_self ..
    · obtain ⟨tid', ip, req, m, hmem, hkey, hamt⟩ := hO.swaps h x hx
      obtain ⟨z, hz, hzx⟩ := swapOver_mono he ⟨x, hx, rfl⟩
      rw [hy] at hz
      obtain rfl := Option.some.inj hz
      refine ⟨tid', ip, req, m, ?_, hkey, hzx.trans hamt⟩
      rw [he.log]
      exact List.mem_cons_of_mem _ hmem
  offramps id y hy := by
    rcases hx : w.offramp id with _ | x
    · obtain ⟨m, rfl, rfl⟩ := he.offramp_of_none hx hy
      obtain ⟨ip, req, rfl, hamt, -⟩ := request_of_insertOfframp hm
      have hkey := SwapDb.offrampId_of_getOfframpById hy
      have hb : r = true := he.answered.trans (SwapDb.insertOfframp_fst_iff.2 (hkey ▸ hx))
      refine ⟨tid, ip, req, m, ?_, hkey, hamt⟩
      rw [he.log, ← hb]
      exact List.mem_cons_self ..
    · obtain ⟨tid', ip, req, m, hmem, hkey, hamt⟩ := hO.offramps id x hx
      obtain ⟨z, hz, hzx⟩ := offrampOver_mono he ⟨x, hx, rfl⟩
      rw [hy] at hz
      obtain rfl := Option.some.inj hz
      refine ⟨tid', ip, req, m, ?_, hkey, hzx.trans hamt⟩
      rw [he.log]
      exact List.mem_cons_of_mem _ hmem

theorem oneToOne_calm (hc : Calm w w') (hO : OneToOne w) : OneToOne w' where
  exact e hmem := exact_mono (fun ⟨x, hx, ha⟩ => ⟨x, (hc.swap _).trans hx, ha⟩)
    (fun ⟨x, hx, ha⟩ => ⟨x, (hc.offramp _).trans hx, ha⟩) (hO.exact e (hc.log ▸ hmem))
  swaps h y hy := by
    rw [hc.log]
    exact hO.swaps h y (hc.swap h ▸ hy)
  offramps id y hy := by
    rw [hc.log]
    exact hO.offramps id y (hc.offramp id ▸ hy)

theorem Knows.mono (he : Effect tid c o r w w' sp) {d : Call} {m : Stage} (hK : Knows w d m) :
    Knows w' d m :=
  ⟨fun x hx => matches_mono he (hK.row x hx), hK.deposit, hK.stuck⟩

theorem Knows.calm (hc : Calm w w') (hK : Knows w c l) : Knows w' c l where
  row m hm := by
    obtain ⟨x, hx, hs⟩ := hK.row m hm
    exact ⟨x, (hc.offramp _).trans hx, hs⟩
  deposit := hK.deposit
  stuck := hK.stuck

theorem knows_start (w : World) (c : Call) : Knows w c .idle :=
  ⟨fun _ hm => (nomatch hm), fun _ _ _ hm => (nomatch hm), nofun⟩

/-- A row that a task holds is ready to be paid, since its request has checked the invoice. -/
theorem Knows.payable (hK : Knows w c l) (hP : ∀ k x, w.offramp k = some x → Payout.Payable cfg x)
    {m : OfframpMapping} (hl : l.row? = some m) : Payout.Payable cfg m := by
  obtain ⟨x, hx, hs⟩ := hK.row m hl
  exact (hP _ x hx).congr ⟨hs.1.symm, hs.2.symm, hs.3.symm, hs.4.symm, hs.5.symm, hs.6.symm⟩

theorem ready_of_payable {m : OfframpMapping} (h : Payout.Payable cfg m) : Ready cfg m := by
  obtain ⟨invoice, amt, hinv, -, hfit⟩ := h.invoice
  exact ⟨invoice, amt, hinv, hfit⟩

theorem knows_move (he : Effect tid c o r w w' sp) (hm : Move cfg c l o r l') (hK : Knows w c l)
    (hP : ∀ k x, w.offramp k = some x → Payout.Payable cfg x) : Knows w' c l' := by
  have hK' : Knows w' c l := hK.mono he
  cases hm with
  | quiet | ask | verify | overtaken | enterStuck | cli | refund => exact hK'
  | @read _ _ id m =>
    have hrow : w.offramp id = some m := he.answered.symm
    obtain rfl : m.offrampId = id := SwapDb.offrampId_of_getOfframpById hrow
    refine ⟨?_, ?_, nofun⟩
    · rintro _ ⟨⟩
      exact matches_mono he ⟨m, hrow, .refl m⟩
    · rintro _ _ ⟨⟩ ⟨⟩
      rfl
  | @found h m =>
    have hrow : w.offramp m.offrampId = some m :=
      (SwapDb.getOfframpByPaymentHash_eq_some he.answered.symm).1
    refine ⟨?_, fun _ _ hid => (nomatch hid), nofun⟩
    rintro _ ⟨⟩
    exact matches_mono he ⟨m, hrow, .refl m⟩
  | move | enter | note => exact ⟨hK'.row, hK'.deposit, nofun⟩
  | strand hnot => exact absurd (ready_of_payable (hK.payable hP rfl)) hnot
  | pay => exact knows_start w' _

end

/-! ## All runs -/

section

variable {cfg : Config} {now : ℤ} {s : Sys}

/-- The amounts, and the tasks that carry them. -/
def value (cfg : Config) : Discipline Op Op.Resp World Call Stage where
  start _ := .idle
  Move := Move cfg
  Final _ l := l.done = true
  Shared := OneToOne
  Owned w _ c l := Knows w c l
  Apart _ _ _ _ := True

theorem payable_of_reachable (h : Reachable cfg now s) (k : ℤ) (x : OfframpMapping)
    (hx : s.world.offramp k = some x) : Payout.Payable cfg x := by
  obtain ⟨L, hL⟩ := (Payout.accounts_sound cfg now).holds h
  exact hL.shared.2.payable k x hx

theorem value_sound (cfg : Config) (now : ℤ) :
    (value cfg).Sound (relay cfg) (fun _ _ => True) (World.fresh cfg now) where
  body := body_follows cfg
  symm _ := trivial
  init := ⟨⟨fun _ h => absurd h List.not_mem_nil, fun _ _ h => (nomatch h),
    fun _ _ h => (nomatch h)⟩, knows_start _ _⟩
  move turn hp hm := by
    have he := effect_of_perform hp
    exact ⟨oneToOne_move he hm turn.owned turn.shared,
      knows_move he hm turn.owned (payable_of_reachable turn.reach)⟩
  others _ hp _ _ _ _ howned _ := ⟨howned.mono (effect_of_perform hp), trivial⟩
  spawned _ _ _ := ⟨knows_start _ _, trivial, fun _ _ _ _ _ => trivial⟩
  abort turn hp := by
    obtain rfl := abort_of_perform hp
    exact ⟨oneToOne_calm (calm_restarted _) turn.shared, knows_start _ _⟩
  react next hr := oneToOne_calm (reaction_of_react hr).calm next.shared
  reactOthers _ hr _ _ _ howned := howned.calm (reaction_of_react hr).calm
  reactSpawn _ _ := ⟨knows_start _ _, fun _ _ _ => trivial⟩
  reactRestart _ _ := knows_start _ _

/-! ## The BOLT11 invoice of a swap -/

/-- The LM invoice of a swap has just been accepted. -/
def accepts : Bool → (o : Op) → o.Resp → Bool
  | _, .operator _ (.submitTx ⟨.createInvoice, _⟩), .ok _ => true
  | _, _, _ => false

/-- After that, LDK is asked for a BOLT11 invoice over what the amount is worth. -/
def Invoicing (amountCbtc : ℤ) : Bool → Op → Prop
  | true, o => ∃ amtMsat description expirySecs, Worth amtMsat amountCbtc ∧
      o = .ldk (.createBolt11Invoice amtMsat description expirySecs)
  | false, _ => True

/-- The submission loop, with the local state as it is between the attempts. -/
theorem safe_submitContractTxWithRetry {α τ : Type} {Allowed : τ → Op → Prop}
    {next : τ → (o : Op) → o.Resp → τ} {Q : α → τ → Prop} {l : τ} {context : String}
    {maxAttempts delay : ℕ} {buildAndSubmit : Relay (Except CardanoError α)}
    (hallowed : ∀ n, Allowed l (.sleep n)) (hsleep : ∀ n r, next l (.sleep n) r = l)
    (hb : Safe Allowed next (Attempted Q (· = l)) buildAndSubmit l) :
    Safe Allowed next (Attempted Q (· = l))
      (submitContractTxWithRetry context maxAttempts delay buildAndSubmit) l := by
  unfold submitContractTxWithRetry
  generalize "" = lastErr
  suffices h : ∀ left, Safe Allowed next (Attempted Q (· = l))
    (submitAttempts context maxAttempts delay buildAndSubmit left lastErr) l from h maxAttempts
  intro left
  induction left generalizing lastErr with
  | zero => exact rfl
  | succ left ih =>
    unfold submitAttempts
    split_ifs
    -- the wait before a further attempt
    on_goal 1 =>
      refine safe_perform (hallowed delay) fun r => ?_
      rw [hsleep]
    all_goals
      refine hb.bind ?_
      rintro (e | a) l' hl
      · obtain rfl : l' = l := hl
        dsimp only
        split_ifs
        · exact ih e
        · exact rfl
      · exact hl

theorem safe_requestSwap (a amountCbtc : ℤ) (cardanoAddress : String) (expiryMs : ℤ) :
    Safe (Invoicing a) accepts
      (Attempted (fun x _ => x.2.1 = swapPrefix ++ cardanoAddress) (· = false))
      (requestSwap cfg amountCbtc cardanoAddress expiryMs) false := by
  unfold requestSwap
  dsimp only
  rcases validateAddress cfg cardanoAddress _ with e | ownerPkh
  · exact rfl
  refine safe_perform trivial fun now => ?_
  refine (safe_submitContractTxWithRetry (Q := fun _ _ => True) (fun _ => trivial) (fun _ _ => rfl)
    ?_).bind ?_
  · refine safe_perform trivial ?_
    rintro (e | ⟨id, tx⟩)
    · exact rfl
    refine safe_perform trivial ?_
    rintro (e | hash)
    · exact rfl
    · trivial
  · rintro (e | ⟨id, hash⟩) l hl
    · exact hl
    · exact rfl

/-- A swap request asks for its BOLT11 invoice as soon as its LM invoice is accepted. -/
theorem safe_handleSwapRequest (ip : String) (req : SwapRequest) :
    Safe (Invoicing req.amountCbtc) accepts (fun _ l => l = false) (handleSwapRequest cfg ip req)
      false := by
  refine safe_perform trivial fun allowed => ?_
  split_ifs with _ hamount haddress
  · exact rfl
  · exact rfl
  · exact rfl
  refine safe_perform trivial fun active => ?_
  dsimp only
  split_ifs
  · exact rfl
  refine safe_perform trivial fun answer => ?_
  rcases insufficient req.amountCbtc answer with _ | available
  swap
  · exact rfl
  refine (safe_requestSwap req.amountCbtc _ _ _).bind ?_
  rintro (e | ⟨invoiceId, description, createTxHash⟩) l hl
  · exact hl
  obtain rfl : description = swapPrefix ++ req.cardanoAddress := hl
  obtain ⟨hpos, hmax⟩ : 0 < req.amountCbtc ∧ req.amountCbtc ≤ 10000000000 := by
    simpa [amountOk] using hamount
  have hconv := cbtcToMsat_of_admitted hpos hmax
  have hfits := description_fits (Nat.not_lt.1 haddress)
  have hinvoice : Safe (Invoicing req.amountCbtc) accepts (fun _ l => l = false)
      (createInvoiceForSwap req.amountCbtc (swapPrefix ++ req.cardanoAddress)
        (cfg.swapExpiryMs.tdiv 1000 % 2 ^ 32).toNat) l := by
    unfold createInvoiceForSwap
    rw [hconv]
    dsimp only
    rw [if_neg (Nat.not_lt.2 hfits)]
    refine safe_perform ?_ ?_
    · cases l with
      | false => trivial
      | true => exact ⟨_, _, _, worth_of_cbtcToMsat hconv, rfl⟩
    · rintro (e | invoice)
      · exact rfl
      · exact safe_perform trivial fun _ => rfl
  refine hinvoice.bind ?_
  rintro (_ | ⟨bolt11, paymentHash⟩) _ rfl
  · exact rfl
  refine safe_perform trivial fun nowMs => Safe.bind (Q := fun _ l => l = false) ?_ fun _ _ hl => hl
  refine safe_perform trivial fun createdAt => safe_perform trivial ?_
  rintro (_ | _)
  · exact ⟨trivial, fun e => nomatch e⟩
  · exact rfl

theorem created_of_reachable (h : Reachable cfg now s) {tid : ℕ} {ip : String} {req : SwapRequest}
    {rest : Relay Unit} (ht : s.tasks tid = some ⟨.handleSwapRequest ip req, rest⟩) :
    ∃ l, Safe (Invoicing req.amountCbtc) accepts (fun _ l => l = false) rest l := by
  refine Runtime.Reach.each (I := fun _ t => ∀ ip req, t.call = .handleSwapRequest ip req →
    ∃ l, Safe (Invoicing req.amountCbtc) accepts (fun _ l => l = false) t.rest l) ?_ ?_ ?_ ?_ h ht
    ip req rfl
  · rintro w _ ip req rfl
    exact ⟨false, (safe_handleSwapRequest ip req).bind fun _ _ hl => hl⟩
  · intro s tid c o k a r w sp _ _ _ hI ip req hc
    obtain ⟨l, -, hk⟩ := hI ip req hc
    exact ⟨_, hk r⟩
  · exact fun _ hI => hI
  · exact fun _ hI => hI

/-- From the stages after the move to PayingLightning there is one way on. -/
theorem onward_of_holds {L : ℕ → Stage} {tid : ℕ} {t : Task Op Op.Resp Call}
    (hr : Reachable cfg now s) (hL : (value cfg).Holds s L) (ht : s.tasks tid = some t) :
    Onward s.world t where
  created ip req hex k htask hash := by
    subst htask
    obtain ⟨l, -, hk⟩ := created_of_reachable hr ht
    have hnext := hk (.ok hash)
    generalize k (.ok hash) = rest at hnext
    rcases rest with a | ⟨o, k'⟩
    · cases hnext
    · obtain ⟨amtMsat, description, expirySecs, hworth, rfl⟩ := hnext.1
      exact ⟨amtMsat, description, expirySecs, k', hworth, rfl⟩
  moved ip id tx k htask := by
    subst htask
    have hK : Knows _ _ _ := hL.owned ht
    obtain ⟨l', hm, hk⟩ := (hL.keeps ht).move true
    generalize L tid = l at hm hK
    cases hm with
    | quiet hq => cases hq
    | ask h => cases h
    | @move _ _ _ m =>
      obtain ⟨invoice, amt, hinv, hhash, -⟩ :=
        (hK.payable (payable_of_reachable hr) rfl).invoice
      obtain ⟨x, hx, hs⟩ := hK.row m rfl
      obtain rfl := hK.deposit _ _ rfl rfl
      refine hk.next nofun fun o r l' hm => ⟨x, hx, ?_⟩
      cases hm with
      | quiet _ hl => cases hl
      | ask h => cases h
      | enter hinv' =>
        rw [hinv] at hinv'
        obtain ⟨rfl, rfl⟩ := Prod.mk.inj (Option.some.inj hinv')
        rw [hhash, hs.paymentHash]
    | strand hnot => exact absurd (ready_of_payable (hK.payable (payable_of_reachable hr) rfl)) hnot
  entered ip id tx h k htask := by
    subst htask
    have hK : Knows _ _ _ := hL.owned ht
    obtain ⟨l', hm, hk⟩ := (hL.keeps ht).move ()
    generalize L tid = l at hm hK
    cases hm with
    | quiet hq => cases hq
    | ask h => cases h
    | @enter _ _ _ m invoice amt hinv =>
      obtain rfl := hK.deposit _ _ rfl rfl
      refine hk.next nofun fun o r l' hm => ?_
      cases hm with
      | quiet _ hl => cases hl
      | ask h => cases h
      | note hinv' hinfo =>
        rw [hinv] at hinv'
        obtain ⟨rfl, rfl⟩ := Prod.mk.inj (Option.some.inj hinv')
        exact ⟨_, _, _, hK.over rfl, worth_of_cbtcToMsat (invoiceOf_eq_some.1 hinv).2, hinfo, rfl⟩
    | enterStuck => exact absurd rfl hK.stuck

end

end Value

section

variable {cfg : Config} {now : ℤ} {s : Sys}

/-- In every run, on both ramps, value is exchanged one to one: every admitted amount is converted; the
on-chain entry, the row at any later time, the verified deposit and the refund are over the requested
amount of cBTC, and the BOLT11 invoice of a swap and the payment of an offramp are over 1000 msat for
each unit of it; a swap request whose LM invoice is accepted asks LDK for that BOLT11 invoice next, and
a deposit that has moved its row to PayingLightning returns with no error about the invoice or the
amount. -/
theorem exchanged_one_to_one (h : Reachable cfg now s) :
    (∀ a : ℤ, 0 < a → a ≤ 10000000000 → cbtcToMsat a = some (1000 * a).toNat) ∧
      OneToOne s.world ∧ ∀ tid t, s.tasks tid = some t → Onward s.world t := by
  obtain ⟨L, hL⟩ := (Value.value_sound cfg now).holds h
  exact ⟨fun _ hpos hmax => cbtcToMsat_of_admitted hpos hmax, hL.shared,
    fun _ _ ht => Value.onward_of_holds h hL ht⟩

set_option maxRecDepth 100000 in
/-- The first offramp of the devnet is refunded, and the first swap is paid for. -/
theorem exchanged_one_to_one_devnet :
    (∃ s, Reachable Devnet.config Devnet.startTime s ∧
      (s.world.offramp 1).map (·.amountCbtc) = some 50 ∧
      s.world.log.any (fun e => e.op = .operator (.offramp 1) (.sendCbtc
        "b06fd732855606d1de25ea12b901c0bfe12eb0ee51c3db0cf66fcd0a" 50)) = true ∧
      (OneToOne s.world ∧ ∀ tid t, s.tasks tid = some t → Onward s.world t)) ∧
    ∃ s, Reachable Devnet.config Devnet.startTime s ∧
      (s.world.swap Devnet.invoice1.paymentHash).map (·.amountCbtc) = some 50 ∧
      s.world.log.any (fun e => e.op = .ldk (.createBolt11Invoice 50000
        (swapPrefix ++ Devnet.userAddress) 3600)) = true ∧
      (OneToOne s.world ∧ ∀ tid t, s.tasks tid = some t → Onward s.world t) := by
  obtain ⟨s, hs, hp⟩ := Devnet.reachable_of_after Devnet.refundedRun (fun s =>
    decide ((s.world.offramp 1).map (·.amountCbtc) = some 50 ∧
      s.world.log.any (fun e => e.op = .operator (.offramp 1) (.sendCbtc
        "b06fd732855606d1de25ea12b901c0bfe12eb0ee51c3db0cf66fcd0a" 50)) = true)) (by decide +kernel)
  obtain ⟨hamt, hsend⟩ := of_decide_eq_true hp
  obtain ⟨s', hs', hp'⟩ := Devnet.reachable_of_after Devnet.claimedRun (fun s =>
    decide ((s.world.swap Devnet.invoice1.paymentHash).map (·.amountCbtc) = some 50 ∧
      s.world.log.any (fun e => e.op = .ldk (.createBolt11Invoice 50000
        (swapPrefix ++ Devnet.userAddress) 3600)) = true)) (by decide +kernel)
  obtain ⟨hamt', hinvoice⟩ := of_decide_eq_true hp'
  exact ⟨⟨s, hs, hamt, hsend, (exchanged_one_to_one hs).2⟩,
    s', hs', hamt', hinvoice, (exchanged_one_to_one hs').2⟩

end

end LightningRelay
