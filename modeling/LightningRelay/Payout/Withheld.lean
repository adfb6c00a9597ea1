import LightningRelay.Payout.Hashes

/-!
# Deposits that are kept

A deposit that was verified is either used, as a payment that LDK accepted, or should be sent back.
The relay sends it back only when LDK reports the payment as failed: where the payment is not handed
to LDK at all, the row ends as Failed and the deposit stays with the relay.

* `devnet_deposit_kept`: LDK refuses the payment, and no refund is attempted.
* `refund_attempted`: where nothing comes between the verification and the payment, or between the
  report of a failed payment and its refund (`attended`), a failed offramp with a verified deposit
  has had its refund attempted.
-/

set_option autoImplicit false

namespace LightningRelay

open Async

namespace Entry

/-- The offramp whose deposit was verified. -/
def verified? : Entry → Option ℤ
  | ⟨_, _, .operator (.offramp id) (.verifyCbtcReceived _ _), .ok true⟩ => some id
  | _ => none

/-- The offramp for which `send_cbtc` was called. -/
def sends? : Entry → Option ℤ
  | ⟨_, _, .operator (.offramp id) (.sendCbtc _ _), _⟩ => some id
  | _ => none

end Entry

namespace World

/-- A deposit of the offramp was verified. -/
def verified (w : World) (id : ℤ) : Bool := w.log.any fun e => e.verified? = some id

/-- A refund was attempted for the offramp. -/
def refundTried (w : World) (id : ℤ) : Bool := w.log.any fun e => e.sends? = some id

/-- LDK accepted a payment that a deposit made for the offramp. -/
def handed (w : World) (id : ℤ) : Bool := w.attempts.any fun a => Payout.depositFor id a.payer

/-- The offramps with this payment hash have had their refund attempted. -/
def answered (w : World) (h : String) : Bool :=
  (w.db.getOfframpByPaymentHash h).all fun r => w.refundTried r.offrampId

/-- Nothing is owed: every verified deposit was handed to LDK, and every reported failure was
answered by a refund. -/
def quiescent (w : World) : Bool :=
  (w.log.all fun e => e.verified?.all w.handed) &&
    w.delivered.all fun event =>
      match event with
      | .paymentFailed _ (some h) => w.answered h
      | _ => true

end World

namespace Payout

/-- Offramps are inserted under new payment hashes, a deposit finds its row still in
PendingVerification when it stores its transaction, LDK accepts its payment, and no task is lost
between a verification and the payment or between a reported failure and its refund. -/
def attended (s : Sys) : Act → Bool
  | .task tid a =>
    match s.tasks tid with
    | some ⟨_, .op (.db (.insertOfframp m)) _⟩ => s.world.unknownHash m.paymentHash
    | some ⟨_, .op (.db (.transitionOfframpWithCbtcTx id _ _ _)) _⟩ =>
      (s.world.offramp id).any fun r => r.status = .pendingVerification
    | some ⟨.handleOfframpDeposit _ _, .op (.ldk (.payForBolt11Invoice invoice amt)) _⟩ =>
      (a.ldk (.payForBolt11Invoice invoice amt)).toBool
    | some ⟨_, .op (.panic _) _⟩ => s.world.quiescent
    | _ => true
  | .env .crash => s.world.quiescent
  | .env (.disconnect tid) =>
    match s.tasks tid with
    | some ⟨.handleOfframpDeposit _ req, _⟩ =>
      !s.world.verified req.offrampId || s.world.handed req.offrampId
    | _ => true
  | .env _ => true

theorem novel_of_attended (s : Sys) (a : Act) (h : attended s a = true) : novel s a = true := by
  cases a with
  | env e => rfl
  | task tid ans =>
    simp only [novel]
    split
    · next ht => simpa only [attended, ht] using h
    · rfl

/-- A verified deposit that is on its way to LDK. -/
def entrusted : Call → Stage → Option ℤ
  | .handleOfframpDeposit _ req, .verified _ | .handleOfframpDeposit _ req, .paying _
  | .handleOfframpDeposit _ req, .sending _ => some req.offrampId
  | _, _ => none

/-- A reported failure that is on its way to its refund. -/
def alerted : Call → Stage → Option String
  | .handleLdkEvents (.paymentFailed _ (some h)), .alarmed => some h
  | .handleOfframpPaymentFailed h, .alarmed | .handleOfframpPaymentFailed h, .refunding _ => some h
  | _, _ => none

/-- A verified deposit has to be handed to LDK. -/
def payDuty : Discipline.Duty World Call Stage ℤ where
  Owed w id := w.verified id = true ∧ w.handed id = false
  Carries c l id := entrusted c l = some id

/-- A reported failure of an offramp's payment has to be refunded. -/
def refundDuty : Discipline.Duty World Call Stage String where
  Owed w h := w.reported h = true ∧
    ∃ id r, w.offramp id = some r ∧ r.paymentHash = h ∧ w.refundTried id = false
  Carries c l h := alerted c l = some h

section

variable {cfg : Config} {now : ℤ} {tid : ℕ} {c : Call} {l l' : Stage} {o : Op} {r : o.Resp}
  {w w' : World} {sp : Option Call} {id : ℤ} {h : String}

/-! ## A verified deposit reaches LDK -/

theorem verified_eq (he : Effect tid c o r w w' sp) :
    w'.verified id = ((⟨tid, c, o, r⟩ : Entry).verified? = some id || w.verified id) := by
  rw [World.verified, he.log, List.any_cons, World.verified]

/-- A deposit that is verified is on its way. -/
theorem entrusted_of_verified? (hm : Move cfg c l o r l')
    (h : (⟨tid, c, o, r⟩ : Entry).verified? = some id) : entrusted c l' = some id := by
  unfold Entry.verified? at h
  split at h
  next he =>
    obtain ⟨-, rfl, rfl, hr⟩ := Entry.mk.inj he
    obtain rfl := Option.some.inj h
    cases hm with
    | quiet hq => cases hq
    | verified => rfl
    | rejected hne => exact absurd (eq_of_heq hr) hne
  next => cases h

theorem handed_mono (he : Effect tid c o r w w' sp) (hm : Move cfg c l o r l')
    (h : w.handed id = true) : w'.handed id = true := by
  obtain ⟨a, ha, hpay⟩ := List.any_eq_true.1 h
  obtain ⟨j, hj⟩ := List.mem_iff_getElem?.1 ha
  exact List.any_eq_true.2 ⟨a, List.mem_of_getElem? (attempt_mono he hm hj), hpay⟩

theorem handed_react {e : Env} {ch : Change Call} (hr : Reaction w e w' ch) :
    w'.handed id = w.handed id := by
  have hpay : ∀ u : World, u.handed id = (u.attempts.map (·.payer)).any (depositFor id) := by
    intro u
    rw [World.handed, List.any_map]
    rfl
  rw [hpay, hr.map_attempts fun _ _ => rfl, hpay]

/-- What the condition says of an operation of a deposit. -/
structure Attended (c : Call) (o : Op) (r : o.Resp) (w : World) : Prop where
  record : ∀ id tx e n, o = .db (.transitionOfframpWithCbtcTx id tx e n) →
    ∃ x, w.offramp id = some x ∧ x.status = .pendingVerification
  pay : ∀ ip req invoice amt, c = .handleOfframpDeposit ip req →
    o = .ldk (.payForBolt11Invoice invoice amt) → HEq r (.ok () : Except String Unit)

theorem attended_of_ok {s : Sys} {a : Answers} (htask : ∃ k, s.tasks tid = some ⟨c, .op o k⟩)
    (hok : attended s (.task tid a) = true)
    (hp : World.perform tid c o a s.world = .resume r w' sp) : Attended c o r s.world := by
  obtain ⟨k, ht⟩ := htask
  constructor
  · rintro id tx e n rfl
    simp only [attended, ht, Option.any_eq_true, decide_eq_true_eq] at hok
    exact hok
  · rintro ip req invoice amt rfl rfl
    simp only [attended, ht] at hok
    obtain ⟨rfl, -, -⟩ := Outcome.resume.inj hp
    rcases hr : a.ldk (.payForBolt11Invoice invoice amt) with e | u
    · rw [hr] at hok
      cases hok
    · exact HEq.rfl

/-- A deposit that is on its way goes on until LDK has its payment. -/
theorem entrusted_move (he : Effect tid c o r w w' sp) (hm : Move cfg c l o r l')
    (hK : Knows w tid c l) (hA : Accounts cfg w) (hat : Attended c o r w)
    (h : entrusted c l = some id) : entrusted c l' = some id ∨ w'.handed id = true := by
  cases hm with
  | quiet | fail | spawn | record | enter => exact Or.inl h
  | unpayable hnone =>
    -- the request has checked the invoice
    obtain ⟨-, hmatch, -⟩ := hK.deposit _ _ _ rfl
    obtain ⟨invoice, amt, hinv, -⟩ := invoiceOf_of_matches hA hmatch
    rw [hnone] at hinv
    cases hinv
  | @overtaken ip tx k m =>
    have hans : (w.db.transitionOfframpWithCbtcTx k tx .pendingVerification .payingLightning).1 =
      false := Eq.symm he.answered
    rw [SwapDb.transitionOfframpWithCbtcTx_fst_iff.2 (hat.record _ _ _ _ rfl)] at hans
    cases hans
  | misfit hinv hfit =>
    obtain ⟨hmatch, -⟩ := hK.deposit _ _ _ rfl
    obtain ⟨invoice, amt, hinv', -, hfit'⟩ := invoiceOf_of_matches hA hmatch
    rw [hinv] at hinv'
    obtain ⟨rfl, rfl⟩ := Prod.mk.inj (Option.some.inj hinv')
    rw [hfit] at hfit'
    cases hfit'
  | pay =>
    obtain rfl := Option.some.inj h
    obtain rfl := eq_of_heq (hat.pay _ _ _ _ rfl rfl)
    refine Or.inr ?_
    simp [World.handed, he.attempts, Op.onAttempts, depositFor]
  | _ => cases h

theorem payDuty_move (he : Effect tid c o r w w' sp) (hm : Move cfg c l o r l')
    (hK : Knows w tid c l) (hA : Accounts cfg w) (hat : Attended c o r w)
    (hx : payDuty.Owed w' id) :
    entrusted c l' = some id ∨ payDuty.Owed w id ∧ entrusted c l ≠ some id := by
  obtain ⟨hver, hno⟩ := hx
  rw [verified_eq he, Bool.or_eq_true, decide_eq_true_eq] at hver
  by_cases hc : entrusted c l' = some id
  · exact Or.inl hc
  · refine Or.inr ⟨⟨hver.resolve_left fun h => hc (entrusted_of_verified? hm h), ?_⟩, fun hc₀ => ?_⟩
    · by_contra hh
      rw [handed_mono he hm (by simpa using hh)] at hno
      cases hno
    · rcases entrusted_move he hm hK hA hat hc₀ with h | h
      · exact hc h
      · rw [hno] at h
        cases h

theorem not_payDuty_of_quiescent (hq : w.quiescent = true) : ¬ payDuty.Owed w id := by
  rintro ⟨hver, hno⟩
  obtain ⟨e, he, hid⟩ := List.any_eq_true.1 hver
  rw [World.quiescent, Bool.and_eq_true, List.all_eq_true] at hq
  have := hq.1 e he
  rw [of_decide_eq_true hid, Option.all_some, hno] at this
  cases this

theorem quiescent_of_abort {s : Sys} {a : Answers} (htask : ∃ k, s.tasks tid = some ⟨c, .op o k⟩)
    (hok : attended s (.task tid a) = true) (hp : World.perform tid c o a s.world = .abort w') :
    s.world.quiescent = true := by
  obtain ⟨k, ht⟩ := htask
  cases o with
  | panic msg => simpa only [attended, ht] using hok
  | _ => cases hp

theorem not_payDuty_of_disconnect {s : Sys} {t : Task Op Op.Resp Call}
    (hok : attended s (.env (.disconnect tid)) = true) (ht : s.tasks tid = some t)
    (hc : entrusted t.call l = some id) : ¬ payDuty.Owed s.world id := by
  obtain ⟨call, rest⟩ := t
  rintro ⟨hver, hno⟩
  cases call with
  | handleOfframpDeposit ip req =>
    have hid : req.offrampId = id := by
      cases l with
      | verified | paying | sending => exact Option.some.inj hc
      | _ => cases hc
    simp [attended, ht, hid, hver, hno] at hok
  | _ => cases hc

theorem payDuty_upheld (cfg : Config) (now : ℤ) :
    (hashes cfg).Upheld (relay cfg) (fun s a => attended s a = true) (World.fresh cfg now)
      payDuty where
  init id h := nomatch h.1
  move turn hp hm hx := by
    have hat := attended_of_ok turn.task turn.ok hp
    exact (payDuty_move (effect_of_perform hp) hm turn.owned.1.1 turn.shared.1.2 hat hx).imp_right
      Or.inr
  abort turn hp := by
    obtain rfl := abort_of_perform hp
    exact not_payDuty_of_quiescent (w := State.world _) (quiescent_of_abort turn.task turn.ok hp)
  react _ hr _ hx := by
    have hr := reaction_of_react hr
    refine Or.inl ⟨?_, (handed_react hr).symm.trans hx.2⟩
    rw [World.verified, ← hr.calm.log]
    exact hx.1
  drop next hr ht _ _ hx hc := by
    have hre := reaction_of_react hr
    obtain ⟨rfl, -⟩ := isHttp_of_drop hr
    cases hre
    exact not_payDuty_of_disconnect next.ok ht hc hx
  restart next hr := by
    cases reaction_of_react hr
    exact not_payDuty_of_quiescent (w := State.world _) next.ok

/-! ## A reported failure is refunded -/

theorem refundTried_eq (he : Effect tid c o r w w' sp) :
    w'.refundTried id = ((⟨tid, c, o, r⟩ : Entry).sends? = some id || w.refundTried id) := by
  rw [World.refundTried, he.log, List.any_cons, World.refundTried]

/-- A failure that is on its way goes on until its refund is attempted. -/
theorem alerted_move (he : Effect tid c o r w w' sp) (hm : Move cfg c l o r l')
    (hA : Accounts cfg w) (hU : UniqueHash w) (hF : RefundRow w tid c l) (h₀ : alerted c l = some h)
    {x : OfframpMapping} (hx : w.offramp id = some x) (hhash : x.paymentHash = h) :
    alerted c l' = some h ∨ (∃ c', sp = some c' ∧ alerted c' (start c') = some h) ∨
      w'.refundTried id = true := by
  -- the row that the handler has read is the row with this hash
  have hrow : ∀ m, c = .handleOfframpPaymentFailed h → l = .refunding m → m.offrampId = id := by
    intro m hc hl
    obtain ⟨y, hy, hy'⟩ := hF h m hc (Or.inl hl)
    exact hU _ _ y x hy hx (hy'.trans hhash.symm)
  have htried : ∀ m, c = .handleOfframpPaymentFailed h → l = .refunding m →
      (⟨tid, c, o, r⟩ : Entry).sends? = some m.offrampId → w'.refundTried id = true := by
    intro m hc hl hent
    rw [refundTried_eq he, hent, hrow m hc hl]
    simp
  cases hm with
  | quiet | fail | spawn | alarm | cancelFailed => exact Or.inl h₀
  | page =>
    obtain rfl := Option.some.inj h₀
    exact Or.inr (Or.inl ⟨_, he.spawned, rfl⟩)
  | @unknown h' =>
    obtain rfl := Option.some.inj h₀
    have hans : w.db.getOfframpByPaymentHash h' = none := Eq.symm he.answered
    exact absurd hhash (SwapDb.getOfframpByPaymentHash_eq_none_iff.1 hans id x hx)
  | @nowhere h' m hempty =>
    have hans : w.db.getOfframpByPaymentHash h' = some m := Eq.symm he.answered
    obtain ⟨hm', -⟩ := SwapDb.getOfframpByPaymentHash_eq_some hans
    exact absurd hempty (hA.payable _ m hm').refundAddress
  | refund =>
    obtain rfl := Option.some.inj h₀
    exact Or.inr (Or.inr (htried _ rfl rfl rfl))
  | unsigned =>
    obtain rfl := Option.some.inj h₀
    exact Or.inr (Or.inr (htried _ rfl rfl rfl))
  | _ => cases h₀

theorem refundDuty_move (he : Effect tid c o r w w' sp) (hm : Move cfg c l o r l')
    (hA : Accounts cfg w) (hU : UniqueHash w) (hF : RefundRow w tid c l) (hn : Novel o w)
    (hx : refundDuty.Owed w' h) :
    alerted c l' = some h ∨ (∃ c', sp = some c' ∧ alerted c' (start c') = some h) ∨
      refundDuty.Owed w h ∧ alerted c l ≠ some h := by
  obtain ⟨hrep, id, y, hy, hhash, hno⟩ := hx
  rw [reported_eq he] at hrep
  obtain ⟨x, hx, hx'⟩ := row_of_reported he hm hA hn hrep hy hhash
  by_cases h₀ : alerted c l = some h
  · rcases alerted_move he hm hA hU hF h₀ hx hx' with h | h | h
    · exact Or.inl h
    · exact Or.inr (Or.inl h)
    · rw [hno] at h
      cases h
  · refine Or.inr (Or.inr ⟨⟨hrep, id, x, hx, hx', ?_⟩, h₀⟩)
    rw [refundTried_eq he, Bool.or_eq_false_iff] at hno
    exact hno.2

theorem not_refundDuty_of_quiescent (hU : UniqueHash w) (hq : w.quiescent = true) :
    ¬ refundDuty.Owed w h := by
  rintro ⟨hrep, id, x, hx, hhash, hno⟩
  obtain ⟨event, hmem, hev⟩ := List.any_eq_true.1 hrep
  rw [World.quiescent, Bool.and_eq_true, List.all_eq_true, List.all_eq_true] at hq
  have hans := hq.2 event hmem
  unfold LdkEvent.reports at hev
  split at hev
  · obtain rfl := of_decide_eq_true hev
    rcases hy : w.db.getOfframpByPaymentHash _ with _ | y
    · exact SwapDb.getOfframpByPaymentHash_eq_none_iff.1 hy id x hx hhash
    · obtain ⟨hy', hyhash⟩ := SwapDb.getOfframpByPaymentHash_eq_some hy
      obtain rfl := hU _ _ y x hy' hx (hyhash.trans hhash.symm)
      simp [World.answered, hy, hno] at hans
  · cases hev

/-- A failure is reported by handing its event to a new task. -/
theorem refundDuty_react {e : Env} {ch : Change Call} (hr : Reaction w e w' ch)
    (hx : refundDuty.Owed w' h) :
    refundDuty.Owed w h ∨ ∃ c, ch = .spawn c ∧ alerted c (start c) = some h := by
  obtain ⟨hrep, id, x, hx, hhash, hno⟩ := hx
  rw [hr.calm.offramp id] at hx
  rw [World.refundTried, hr.calm.log] at hno
  by_cases hrep₀ : w.reported h = true
  · exact Or.inl ⟨hrep₀, id, x, hx, hhash, hno⟩
  · cases hr with
    | @deliver event =>
      rw [World.reported, List.any_cons, Bool.or_eq_true] at hrep
      have hev := hrep.resolve_right hrep₀
      unfold LdkEvent.reports at hev
      split at hev
      · obtain rfl := of_decide_eq_true hev
        exact Or.inr ⟨_, rfl, rfl⟩
      · cases hev
    | _ => exact absurd hrep hrep₀

theorem refundDuty_upheld (cfg : Config) (now : ℤ) :
    (hashes cfg).Upheld (relay cfg) (fun s a => attended s a = true) (World.fresh cfg now)
      refundDuty where
  init h hx := nomatch hx.1
  move turn hp hm hx := by
    have hn := novel_of_ok turn.task (novel_of_attended _ _ turn.ok)
    exact refundDuty_move (effect_of_perform hp) hm turn.shared.1.2 turn.shared.2 turn.owned.2 hn hx
  abort turn hp := by
    obtain rfl := abort_of_perform hp
    exact not_refundDuty_of_quiescent (w := State.world _) turn.shared.2
      (quiescent_of_abort turn.task turn.ok hp)
  react _ hr _ hx := refundDuty_react (reaction_of_react hr) hx
  drop next hr ht _ _ _ hc := by
    obtain ⟨-, t, ht', hhttp⟩ := isHttp_of_drop hr
    rw [ht] at ht'
    obtain rfl := Option.some.inj ht'
    generalize Task.call _ = call at hhttp hc
    cases call with
    | handleSwapRequest | handleOfframpRequest | handleOfframpDeposit => cases hc
    | _ => cases hhttp
  restart next hr := by
    cases reaction_of_react hr
    exact not_refundDuty_of_quiescent (w := State.world _) next.shared.2 next.ok

end

/-! ## What follows -/

/-- The call works on the offramp with this row. -/
def concerns (r : OfframpMapping) : Call → Bool
  | .handleOfframpDeposit _ req => req.offrampId = r.offrampId
  | .handleLdkEvents (.paymentSent _ h _) | .handleLdkEvents (.paymentFailed _ (some h))
  | .completeOfframp h _ | .handleOfframpPaymentFailed h => h = r.paymentHash
  | _ => false

/-- LDK has handed over the event of every payment of the offramp's invoice that has ended. -/
def informed (w : World) (r : OfframpMapping) : Bool :=
  w.attempts.all fun a => a.paymentHash ≠ r.paymentHash ||
    match a.outcome with
    | none => true
    | some .failed => w.reported r.paymentHash
    | some (.sent _) => w.delivered.any fun event =>
      match event with
      | .paymentSent _ h _ => h = r.paymentHash
      | _ => false

section

variable {cfg : Config} {now : ℤ} {s : Sys}

theorem running_of_entrusted {c : Call} {l : Stage} {r : OfframpMapping}
    (h : entrusted c l = some r.offrampId) : l.done = false ∧ concerns r c = true := by
  cases c with
  | handleOfframpDeposit ip req =>
    cases l with
    | verified | paying | sending => exact ⟨rfl, by simpa [concerns, entrusted] using h⟩
    | _ => cases h
  | _ => cases h

theorem running_of_alerted {c : Call} {l : Stage} {r : OfframpMapping}
    (h : alerted c l = some r.paymentHash) : l.done = false ∧ concerns r c = true := by
  unfold alerted at h
  split at h <;> cases h <;> exact ⟨rfl, by simp [concerns]⟩

/-- In every attended run: a Failed offramp whose deposit was verified, whose payments by deposits
have all failed, for which no task is running and no event is outstanding, has had its refund
attempted. -/
theorem refund_attempted (h : ReachableBy cfg now (fun s a => attended s a = true) s) (id : ℤ)
    (r : OfframpMapping) (hr : s.world.offramp id = some r) :
    r.status = .failed → s.world.verified id = true →
    paymentsFailed s.world id = true → s.running (concerns r) = false →
    informed s.world r = true → s.world.refundTried id = true := by
  intro _ hver hfailed hidle hinf
  have hS := (hashes_sound cfg now).mono novel_of_attended
  obtain rfl : r.offrampId = id := SwapDb.offrampId_of_getOfframpById hr
  -- no task is on the way with the deposit, so it has reached LDK
  have hhanded : s.world.handed r.offrampId = true := by
    by_contra hno
    obtain ⟨L, hL, hC⟩ := hS.upholds (payDuty_upheld cfg now) h
    obtain ⟨tid, t, ht, hc⟩ := hC r.offrampId ⟨hver, by simpa using hno⟩
    obtain ⟨hdone, hcon⟩ := running_of_entrusted hc
    rw [State.running_of_task (Runtime.Reach.fresh h |>.lt_next ht) ht hcon (not_ended (hL.keeps ht) hdone)] at hidle
    cases hidle
  obtain ⟨a, ha, hpay⟩ := List.any_eq_true.1 hhanded
  -- the payment has failed and LDK has said so; nobody is on the way with that either
  by_contra hno
  obtain ⟨L, hL, hC⟩ := hS.upholds (refundDuty_upheld cfg now) h
  obtain ⟨j, hj⟩ := List.mem_iff_getElem?.1 ha
  obtain ⟨x, hx, -, hhash⟩ := hL.shared.1.2.deposits j a _ hj hpay
  rw [hr] at hx
  obtain rfl := Option.some.inj hx
  have hrep : s.world.reported r.paymentHash = true := by
    simpa [hhash, failed_of_paymentsFailed hfailed ha hpay] using List.all_eq_true.1 hinf a ha
  obtain ⟨tid, t, ht, hc⟩ := hC r.paymentHash ⟨hrep, _, r, hr, rfl, by simpa using hno⟩
  obtain ⟨hdone, hcon⟩ := running_of_alerted hc
  rw [State.running_of_task (Runtime.Reach.fresh h |>.lt_next ht) ht hcon (not_ended (hL.keeps ht) hdone)] at hidle
  cases hidle

/-- The row is Failed with a verified deposit, its payments have failed, nothing is running and no
event is outstanding. -/
def stranded (s : Sys) (id : ℤ) (r : OfframpMapping) : Bool :=
  r.status = .failed && s.world.verified id && paymentsFailed s.world id &&
    !s.running (concerns r) && informed s.world r

set_option maxRecDepth 100000 in
theorem refund_attempted_refunded : ∃ s r,
    ReachableBy Devnet.config Devnet.startTime (fun s a => attended s a = true) s ∧
    s.world.offramp 1 = some r ∧ r.status = .failed ∧ s.world.verified 1 = true ∧
    paymentsFailed s.world 1 = true ∧ s.running (concerns r) = false ∧
    informed s.world r = true ∧ s.world.refundTried 1 = true := by
  obtain ⟨s, hs, hp⟩ := Devnet.reachableBy_of_after attended Devnet.refundedRun (fun s =>
    (s.world.offramp 1).any (stranded s 1)) (by decide +kernel)
  obtain ⟨r, hr, hst⟩ := (Option.any_eq_true _ _).1 hp
  simp only [stranded, Bool.and_eq_true, decide_eq_true_eq, Bool.not_eq_true'] at hst
  obtain ⟨⟨⟨⟨hst, hver⟩, hpay⟩, hrun⟩, hinf⟩ := hst
  exact ⟨s, r, hs, hr, hst, hver, hpay, hrun, hinf,
    refund_attempted hs 1 r hr hst hver hpay hrun hinf⟩

/-- The deposit of the first offramp is verified, and LDK refuses its payment. -/
def refusedRun : List Act :=
  Devnet.boot ++ Devnet.offrampRequest 3 1 Devnet.invoice1 ++
    Devnet.deposit 1 Devnet.depositTx :: Devnet.steps 4 9 Devnet.ok ++
    Devnet.steps 4 4 Devnet.refusing

set_option maxRecDepth 100000 in
/-- The offramp is Failed, its verified deposit was not paid out, and the relay keeps it. -/
theorem devnet_deposit_kept : ∃ s r, Reachable Devnet.config Devnet.startTime s ∧
    s.world.offramp 1 = some r ∧ r.status = .failed ∧ s.world.verified 1 = true ∧
    s.world.attempts = [] ∧ s.running (concerns r) = false ∧ informed s.world r = true ∧
    s.world.refundTried 1 = false := by
  obtain ⟨s, hs, hp⟩ := Devnet.reachable_of_after refusedRun (fun s =>
    (s.world.offramp 1).any (stranded s 1) && s.world.attempts.isEmpty &&
      !s.world.refundTried 1) (by decide +kernel)
  simp only [Bool.and_eq_true, List.isEmpty_iff, Bool.not_eq_true', Option.any_eq_true] at hp
  obtain ⟨⟨⟨r, hr, hst⟩, hnone⟩, hno⟩ := hp
  simp only [stranded, Bool.and_eq_true, decide_eq_true_eq, Bool.not_eq_true'] at hst
  obtain ⟨⟨⟨⟨hst, hver⟩, -⟩, hrun⟩, hinf⟩ := hst
  exact ⟨s, r, hs, hr, hst, hver, hnone, hrun, hinf, hno⟩

end

end Payout

end LightningRelay
