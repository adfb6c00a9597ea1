import LightningRelay.Payout.Hashes

/-!
# Refunds

`handle_offramp_payment_failed` refunds the offramp that it finds under the payment hash of a
PaymentFailed event, whatever the row's status is and however often it is called.

* `devnet_refund_without_deposit`: a payment of an offramp's invoice by the CLI fails before the
  offramp has a deposit, and the offramp is refunded.
* `refund_at_most_once`: where every payment hash is used by one offramp and not by the CLI, and its
  failure is not reported again while it is acted on or after the refund (`unrepeated`), an offramp is
  refunded at most once, after a verified deposit, and not if its payment succeeded.
-/

set_option autoImplicit false

namespace LightningRelay

open Async

/-- The offramp for which a refund was submitted. -/
def Entry.refund? : Entry → Option ℤ
  | ⟨_, _, .operator (.offramp id) (.submitTx ⟨.sendCbtc, _⟩), _⟩ => some id
  | _ => none

/-- How often a refund was submitted for an offramp. -/
def World.refunds (w : World) (id : ℤ) : ℕ := w.log.countP fun e => e.refund? = some id

namespace Payout

/-- The tasks that act on the failure of a payment hash. -/
def actsOn (h : String) : Call → Bool
  | .handleLdkEvents (.paymentFailed _ (some h')) | .handleOfframpPaymentFailed h' => h' = h
  | _ => false

/-- An offramp is inserted only under a new payment hash, the CLI does not pay the invoice of an
offramp, and the failure of a payment hash is reported, for the first time or once more, only while no
task acts on it and no refund was submitted for its offramp. -/
def unrepeated (s : Sys) : Act → Bool
  | .task tid _ =>
    match s.tasks tid with
    | some ⟨_, .op (.db (.insertOfframp m)) _⟩ => s.world.unknownHash m.paymentHash
    | some ⟨.sendpayment _ _, .op (.ldk (.payForBolt11Invoice invoice _)) _⟩ =>
      (s.world.db.getOfframpByPaymentHash invoice.paymentHash).isNone
    | _ => true
  | .env (.deliver (.paymentFailed _ (some h))) => !s.running (actsOn h) &&
    (s.world.db.getOfframpByPaymentHash h).all fun m => s.world.refunds m.offrampId = 0
  | .env _ => true

theorem novel_of_unrepeated (s : Sys) (a : Act) (h : unrepeated s a = true) : novel s a = true := by
  cases a with
  | env e => rfl
  | task tid ans =>
    simp only [novel]
    split
    · next ht => simpa only [unrepeated, ht] using h
    · rfl

/-- The failed payment that a task has still to act on. -/
def alarm : Call → Stage → Option String
  | .handleLdkEvents (.paymentFailed _ (some h)), .alarmed => some h
  | .handleOfframpPaymentFailed h, .alarmed | .handleOfframpPaymentFailed h, .refunding _
  | .handleOfframpPaymentFailed h, .submitting _ => some h
  | _, _ => none

theorem actsOn_of_alarm {c : Call} {l : Stage} {h : String} (ha : alarm c l = some h) :
    l.done = false ∧ actsOn h c = true := by
  unfold alarm at ha
  split at ha <;> first | exact ⟨rfl, decide_eq_true (Option.some.inj ha)⟩ | cases ha

/-- What holds of refunds, rows and payments. -/
structure Refunds (w : World) : Prop where
  payer : ∀ (j : ℕ) a k r, w.attempts[j]? = some a → w.offramp k = some r →
    a.paymentHash = r.paymentHash → depositFor k a.payer = true
  once : ∀ k, w.refunds k ≤ 1
  reported : ∀ k, w.refunds k ≠ 0 → ∃ r, w.offramp k = some r ∧ w.reported r.paymentHash = true

/-- No offramp with this payment hash was refunded. -/
def Unrefunded (w : World) (h : String) : Prop :=
  ∀ k r, w.offramp k = some r → r.paymentHash = h → w.refunds k = 0

/-- A task that acts on a failed payment is the first to refund it. -/
def Alarmed (w : World) (_ : ℕ) (c : Call) (l : Stage) : Prop :=
  ∀ h, alarm c l = some h → w.reported h = true ∧ Unrefunded w h

/-- One task acts on a failed payment. -/
def OneAlarm (c : Call) (l : Stage) (c' : Call) (l' : Stage) : Prop :=
  ∀ h, alarm c l = some h → alarm c' l' ≠ some h

/-! ## One move -/

section

variable {cfg : Config} {tid : ℕ} {c : Call} {l l' : Stage} {o : Op} {r : o.Resp} {w w' : World}
  {sp : Option Call} {k : ℤ} {h : String}

theorem refund?_eq_some (hm : Move cfg c l o r l')
    (h : (⟨tid, c, o, r⟩ : Entry).refund? = some k) :
    ∃ h m, c = .handleOfframpPaymentFailed h ∧ l = .submitting m ∧ l' = .idle ∧
      m.offrampId = k := by
  unfold Entry.refund? at h
  split at h
  next he =>
    obtain ⟨-, rfl, rfl, -⟩ := Entry.mk.inj he
    obtain rfl := Option.some.inj h
    cases hm with
    | quiet hq => cases hq
    | submit => exact ⟨_, _, rfl, rfl, rfl, rfl⟩
  next => cases h

theorem refunds_eq (he : Effect tid c o r w w' sp) (k : ℤ) :
    w'.refunds k = w.refunds k +
      if (⟨tid, c, o, r⟩ : Entry).refund? = some k then 1 else 0 := by
  simp only [World.refunds, he.log, List.countP_cons, decide_eq_true_eq]

/-- A task does not get an alarm by a move of its own. -/
theorem alarm_of_move (hm : Move cfg c l o r l') (ha : alarm c l' = some h) :
    alarm c l = some h := by
  cases hm with
  | quiet | fail | spawn | request | enterCli | payCli | cancelFailed | alarm | refund => exact ha
  | _ => cases ha

/-- The CLI does not pay under the hash of an offramp. -/
theorem cli_of_ok {s : Sys} {a : Answers} (htask : ∃ k, s.tasks tid = some ⟨c, .op o k⟩)
    (hok : unrepeated s (.task tid a) = true) {i : String} {amt amt' : Option ℕ}
    {invoice : Bolt11Invoice} (hc : c = .sendpayment i amt)
    (ho : o = .ldk (.payForBolt11Invoice invoice amt')) {x : OfframpMapping}
    (hx : s.world.offramp k = some x) : x.paymentHash ≠ invoice.paymentHash := by
  obtain ⟨k, ht⟩ := htask
  subst hc ho
  simp only [unrepeated, ht, Option.isNone_iff_eq_none] at hok
  exact SwapDb.getOfframpByPaymentHash_eq_none_iff.1 hok _ x hx

theorem unrefunded_mono (he : Effect tid c o r w w' sp) (hm : Move cfg c l o r l')
    (hA : Accounts cfg w) (hn : Novel o w) (hrep : w.reported h = true) (hU : Unrefunded w h)
    (hent : ∀ k x, (⟨tid, c, o, r⟩ : Entry).refund? = some k → w.offramp k = some x →
      x.paymentHash ≠ h) : Unrefunded w' h := by
  intro k y hy hhash
  obtain ⟨x, hx, hx'⟩ := row_of_reported he hm hA hn hrep hy hhash
  rw [refunds_eq he, hU k x hx hx', if_neg fun e => hent k x e hx hx']

theorem payer_move {s : Sys} {a : Answers} (he : Effect tid c o r s.world w' sp)
    (hm : Move cfg c l o r l') (hK : Knows s.world tid c l) (hA : Accounts cfg s.world)
    (hU : UniqueHash s.world) (htask : ∃ k, s.tasks tid = some ⟨c, .op o k⟩)
    (hok : unrepeated s (.task tid a) = true) (hR : Refunds s.world) (j : ℕ) (b : Attempt) (k : ℤ)
    (y : OfframpMapping) (hb : w'.attempts[j]? = some b) (hy : w'.offramp k = some y)
    (hhash : b.paymentHash = y.paymentHash) : depositFor k b.payer = true := by
  rcases offramp_origin he hm hy with ⟨x, hx, hs⟩ | ⟨-, ⟨m, rfl, hs⟩, -⟩
  · rw [hs.paymentHash] at hhash
    rcases attempt_origin he hm hb with hb | ⟨-, hp, -, invoice, amt, hop, hinv, hc⟩
    · exact hR.payer j b k x hb hx hhash
    · rw [hp]
      rcases hc with ⟨i, amt', hc⟩ | ⟨ip, id, tx, m, amt', rfl, rfl, -, hm'⟩
      · exact absurd (hhash.symm.trans hinv) (cli_of_ok htask hok hc hop hx)
      · obtain ⟨z, hz, -, -, hzhash⟩ := paymentHash_of_sending hK hA hm'
        obtain rfl := hU k id x z hx hz (hhash.symm.trans (hinv.trans hzhash))
        simp [depositFor]
  · have hn := novel_of_ok htask (novel_of_unrepeated _ _ hok)
    rcases attempt_origin he hm hb with hb | ⟨-, -, -, invoice, amt, hop, -, -⟩
    · exact absurd (hhash.trans hs.paymentHash) (not_attempt_of_unknownHash (hn m rfl) hb)
    · cases hop

/-- The row that a refund is for, and that the refund is the first one. -/
theorem first_of_refund? (hm : Move cfg c l o r l') (hF : RefundRow w tid c l)
    (hO : Alarmed w tid c l) (hk : (⟨tid, c, o, r⟩ : Entry).refund? = some k) :
    ∃ x, w.offramp k = some x ∧ w.reported x.paymentHash = true ∧ w.refunds k = 0 := by
  obtain ⟨h, m, rfl, rfl, -, rfl⟩ := refund?_eq_some hm hk
  obtain ⟨hrep, hun⟩ := hO h rfl
  obtain ⟨x, hx, hhash⟩ := hF h m rfl (Or.inr rfl)
  exact ⟨x, hx, hhash ▸ hrep, hun _ x hx hhash⟩

theorem once_move (he : Effect tid c o r w w' sp) (hm : Move cfg c l o r l')
    (hF : RefundRow w tid c l) (hO : Alarmed w tid c l) (hR : Refunds w) (k : ℤ) :
    w'.refunds k ≤ 1 := by
  rw [refunds_eq he]
  split_ifs with hent
  · obtain ⟨-, -, -, hzero⟩ := first_of_refund? hm hF hO hent
    omega
  · exact hR.once k

theorem reported_move (he : Effect tid c o r w w' sp) (hm : Move cfg c l o r l')
    (hF : RefundRow w tid c l) (hO : Alarmed w tid c l) (hR : Refunds w) (k : ℤ)
    (hk : w'.refunds k ≠ 0) : ∃ y, w'.offramp k = some y ∧ w'.reported y.paymentHash = true := by
  have hold : ∃ x, w.offramp k = some x ∧ w.reported x.paymentHash = true := by
    rw [refunds_eq he] at hk
    split_ifs at hk with hent
    · obtain ⟨x, hx, hrep, -⟩ := first_of_refund? hm hF hO hent
      exact ⟨x, hx, hrep⟩
    · exact hR.reported k hk
  obtain ⟨x, hx, hrep⟩ := hold
  obtain ⟨y, hy, hs⟩ := offramp_mono he hm hx
  exact ⟨y, hy, by rw [reported_eq he, hs.paymentHash, hrep]⟩

theorem alarmed_move (he : Effect tid c o r w w' sp) (hm : Move cfg c l o r l')
    (hA : Accounts cfg w) (hn : Novel o w) (hO : Alarmed w tid c l) : Alarmed w' tid c l' := by
  intro h ha
  obtain ⟨hrep, hun⟩ := hO h (alarm_of_move hm ha)
  refine ⟨(reported_eq he h).trans hrep, unrefunded_mono he hm hA hn hrep hun fun k x hk _ => ?_⟩
  obtain ⟨h', m, rfl, rfl, rfl, -⟩ := refund?_eq_some hm hk
  cases ha

theorem alarmed_mono {tid' : ℕ} {d : Call} {l₀ : Stage} (he : Effect tid c o r w w' sp)
    (hm : Move cfg c l o r l') (hA : Accounts cfg w) (hn : Novel o w) (hF : RefundRow w tid c l)
    (hap : OneAlarm c l d l₀) (hO : Alarmed w tid' d l₀) : Alarmed w' tid' d l₀ := by
  intro h ha
  obtain ⟨hrep, hun⟩ := hO h ha
  refine ⟨(reported_eq he h).trans hrep, unrefunded_mono he hm hA hn hrep hun ?_⟩
  rintro k x hk hx rfl
  obtain ⟨h₁, m, rfl, rfl, -, rfl⟩ := refund?_eq_some hm hk
  obtain ⟨z, hz, hhash⟩ := hF h₁ m rfl (Or.inr rfl)
  rw [hx] at hz
  obtain rfl := Option.some.inj hz
  exact hap h₁ rfl (hhash ▸ ha)

/-- The handler that an event starts takes over the alarm of the event. -/
theorem alarm_spawned {c' : Call} (he : Effect tid c o r w w' (some c'))
    (hm : Move cfg c l o r l') (ha : alarm c' (start c') = some h) :
    l = .alarmed ∧ alarm c l = some h ∧ alarm c l' = none := by
  rcases spawn_cases he hm with ⟨hp, -⟩ | ⟨id, h', rfl, rfl, rfl, rfl⟩
  · cases c' with
    | handleLdkEvents | handleOfframpPaymentFailed => cases hp
    | _ => cases ha
  · exact ⟨rfl, ha, rfl⟩

theorem alarmed_spawned {c' : Call} {tid' : ℕ} (he : Effect tid c o r w w' (some c'))
    (hm : Move cfg c l o r l') (hA : Accounts cfg w) (hn : Novel o w) (hO : Alarmed w tid c l) :
    Alarmed w' tid' c' (start c') := by
  intro h ha
  obtain ⟨hl, ha₀, -⟩ := alarm_spawned he hm ha
  obtain ⟨hrep, hun⟩ := hO h ha₀
  refine ⟨(reported_eq he h).trans hrep, unrefunded_mono he hm hA hn hrep hun fun k x hk _ => ?_⟩
  obtain ⟨h', m, -, hl', -⟩ := refund?_eq_some hm hk
  rw [hl] at hl'
  cases hl'

/-! ## All runs -/

theorem unrefunded_react {e : Env} {ch : Change Call} (hr : Reaction w e w' ch)
    (hU : Unrefunded w h) : Unrefunded w' h := by
  intro k x hx hhash
  rw [hr.calm.offramp k] at hx
  rw [World.refunds, hr.calm.log]
  exact hU k x hx hhash

theorem refunds_react {e : Env} {ch : Change Call} (hr : Reaction w e w' ch) (hR : Refunds w) :
    Refunds w' where
  payer j a' k x ha' hx hhash := by
    obtain ⟨a, ha, hahash, hpayer⟩ := reaction_attempts hr ha'
    rw [hr.calm.offramp k] at hx
    rw [hpayer]
    exact hR.payer j a k x ha hx (hahash.symm.trans hhash)
  once k := by
    rw [World.refunds, hr.calm.log]
    exact hR.once k
  reported k hk := by
    rw [World.refunds, hr.calm.log] at hk
    obtain ⟨x, hx, hrep⟩ := hR.reported k hk
    exact ⟨x, (hr.calm.offramp k).trans hx, reported_react hr hrep⟩

theorem alarmed_react {e : Env} {ch : Change Call} (hr : Reaction w e w' ch)
    (hO : Alarmed w tid c l) : Alarmed w' tid c l := by
  intro h ha
  obtain ⟨hrep, hun⟩ := hO h ha
  exact ⟨reported_react hr hrep, unrefunded_react hr hun⟩

theorem OneAlarm.symm {c' : Call} (h : OneAlarm c l c' l') : OneAlarm c' l' c l :=
  fun h' ha' ha => h h' ha ha'

/-- A new alarm is about a failure that nobody acts on and that was not refunded. -/
theorem alarm_delivered {s : Sys} {e : Env} (hok : unrepeated s (.env e) = true)
    (hU : UniqueHash s.world) (hr : Reaction s.world e w' (.spawn c))
    (ha : alarm c (start c) = some h) :
    w'.reported h = true ∧ s.running (actsOn h) = false ∧ Unrefunded s.world h := by
  cases hr with
  | request _ hc =>
    cases c with
    | handleLdkEvents | handleOfframpPaymentFailed => cases hc
    | _ => cases ha
  | @deliver event =>
    rcases event with _ | _ | _ | ⟨id, _ | h'⟩
    · cases ha
    · cases ha
    · cases ha
    · cases ha
    · obtain rfl := Option.some.inj ha
      simp only [unrepeated, Bool.and_eq_true, Bool.not_eq_true'] at hok
      refine ⟨by simp [World.reported, LdkEvent.reports], hok.1, ?_⟩
      rintro k x hx rfl
      have hzero := hok.2
      rw [getOfframpByPaymentHash_of_unique hU hx, Option.all_some, decide_eq_true_eq,
        SwapDb.offrampId_of_getOfframpById hx] at hzero
      exact hzero

/-- The discipline of the refunds. -/
def refunds (cfg : Config) : Discipline Op Op.Resp World Call Stage :=
  (hashes cfg).extend Refunds Alarmed OneAlarm

theorem refunds_fresh (cfg : Config) (now : ℤ) : Refunds (World.fresh cfg now) where
  payer _ _ _ _ h := nomatch h
  once _ := Nat.zero_le 1
  reported _ h := absurd rfl h

theorem refunds_sound (cfg : Config) (now : ℤ) :
    (refunds cfg).Sound (relay cfg) (fun s a => unrepeated s a = true) (World.fresh cfg now) := by
  refine (hashes_sound cfg now).extend novel_of_unrepeated ?_
  exact {
    symm := OneAlarm.symm
    init := ⟨refunds_fresh cfg now, nofun⟩
    move := fun turn hp hm => by
      have he := effect_of_perform hp
      have hn := novel_of_ok turn.task (novel_of_unrepeated _ _ turn.ok)
      obtain ⟨⟨⟨-, hA⟩, hU⟩, hR⟩ := turn.shared
      obtain ⟨⟨⟨hK, -⟩, hF⟩, hO⟩ := turn.owned
      exact ⟨⟨payer_move he hm hK hA hU turn.task turn.ok hR, once_move he hm hF hO hR,
        reported_move he hm hF hO hR⟩, alarmed_move he hm hA hn hO⟩
    others := fun turn hp hm _ _ _ howned hap => by
      have hn := novel_of_ok turn.task (novel_of_unrepeated _ _ turn.ok)
      exact ⟨alarmed_mono (effect_of_perform hp) hm turn.shared.1.1.2 hn turn.owned.1.2 hap.2
        howned.2, fun h ha => hap.2 h (alarm_of_move hm ha)⟩
    spawned := fun turn hp hm => by
      have he := effect_of_perform hp
      have hn := novel_of_ok turn.task (novel_of_unrepeated _ _ turn.ok)
      refine ⟨alarmed_spawned he hm turn.shared.1.1.2 hn turn.owned.2, OneAlarm.symm fun h ha => ?_,
        fun _ _ _ _ hap => OneAlarm.symm fun h ha => ?_⟩
      · rw [(alarm_spawned he hm ha).2.2]
        exact nofun
      · exact hap.2 h (alarm_spawned he hm ha).2.1
    abort := fun turn hp => by
      obtain rfl := abort_of_perform hp
      exact ⟨refunds_react .crash turn.shared.2, nofun⟩
    react := fun next hr => refunds_react (reaction_of_react hr) next.shared.2
    reactOthers := fun _ hr _ _ _ howned => alarmed_react (reaction_of_react hr) howned.2
    reactSpawn := fun next hr => by
      have hr := reaction_of_react hr
      refine ⟨fun h ha => ?_, fun ht hkeep _ => OneAlarm.symm fun h ha ha' => ?_⟩
      · obtain ⟨hrep, -, hun⟩ := alarm_delivered next.ok next.shared.1.2 hr ha
        exact ⟨hrep, unrefunded_react hr hun⟩
      · obtain ⟨-, hno, -⟩ := alarm_delivered next.ok next.shared.1.2 hr ha
        obtain ⟨hdone, hacts⟩ := actsOn_of_alarm ha'
        have hlt := next.reach.fresh.lt_next ht
        rw [State.running_of_task hlt ht hacts (not_ended hkeep hdone)] at hno
        cases hno
    reactRestart := fun _ _ => nofun }

end

section

variable {cfg : Config} {now : ℤ} {s : Sys}

/-- In every run in which neither payment hashes nor failures that were acted on are repeated: an
offramp is refunded at most once, only if its deposit was verified, and not if its Lightning payment
succeeded. -/
theorem refund_at_most_once (h : ReachableBy cfg now (fun s a => unrepeated s a = true) s) (id : ℤ) :
    s.world.refunds id ≤ 1 ∧
    (s.world.refunds id ≠ 0 → ∃ tx amount, VerifiedIn s.world.log id tx amount) ∧
    ∀ r a p, s.world.offramp id = some r → a ∈ s.world.attempts →
      a.paymentHash = r.paymentHash → a.outcome = some (.sent p) → s.world.refunds id = 0 := by
  obtain ⟨L, hL⟩ := (refunds_sound cfg now).holds h
  obtain ⟨⟨⟨hledger, hA⟩, -⟩, hR⟩ := hL.shared
  -- a refund follows a failed payment, and that was made by a deposit
  have hfailed : s.world.refunds id ≠ 0 → ∃ (j : ℕ) (a : Attempt), s.world.attempts[j]? = some a ∧
      a.outcome = some .failed ∧ depositFor id a.payer = true := by
    intro hne
    obtain ⟨r, hr, hrep⟩ := hR.reported id hne
    obtain ⟨j, a, ha, hhash, hout⟩ := attempt_of_reported hA hrep
    exact ⟨j, a, ha, hout, hR.payer j a id r ha hr hhash⟩
  refine ⟨hR.once id, fun hne => ?_, fun r a p hr ha hhash hout => ?_⟩
  · obtain ⟨j, a, ha, -, hpayer⟩ := hfailed hne
    obtain ⟨r, hr, htx, -⟩ := hA.deposits j a id ha hpayer
    exact ⟨r.cbtcTxHash, r.amountCbtc, (hledger id).verified r hr htx⟩
  · by_contra hne
    obtain ⟨j, b, hb, hbout, hbpayer⟩ := hfailed hne
    obtain ⟨i, hi⟩ := List.mem_iff_getElem?.1 ha
    obtain rfl := hA.single i j a b id hi hb (hR.payer i a id r hi hr hhash) hbpayer
    rw [hi] at hb
    rw [← Option.some.inj hb, hout] at hbout
    cases hbout

set_option maxRecDepth 100000 in
theorem refund_at_most_once_refunded : ∃ s,
    ReachableBy Devnet.config Devnet.startTime (fun s a => unrepeated s a = true) s ∧
    s.world.refunds 1 = 1 ∧ (s.world.offramp 1).map (·.status) = some .failed ∧
    (s.world.refunds 1 ≤ 1 ∧
    (s.world.refunds 1 ≠ 0 → ∃ tx amount, VerifiedIn s.world.log 1 tx amount) ∧
    ∀ r a p, s.world.offramp 1 = some r → a ∈ s.world.attempts →
      a.paymentHash = r.paymentHash → a.outcome = some (.sent p) → s.world.refunds 1 = 0) := by
  obtain ⟨s, hs, hp⟩ := Devnet.reachableBy_of_after unrepeated Devnet.refundedRun (fun s =>
    decide (s.world.refunds 1 = 1 ∧ (s.world.offramp 1).map (·.status) = some .failed))
    (by decide +kernel)
  obtain ⟨hone, hst⟩ := of_decide_eq_true hp
  exact ⟨s, hs, hone, hst, refund_at_most_once hs 1⟩

/-- The operator pays the invoice of an offramp by the CLI before the offramp has a deposit, and the
payment fails. -/
def strayRun : List Act :=
  Devnet.boot ++ Devnet.offrampRequest 3 1 Devnet.invoice1 ++
    .env (.request (.sendpayment Devnet.invoice1.text none)) :: Devnet.steps 4 4 Devnet.ok ++
    .env (.settle 0 .failed) ::
    .env (.deliver (.paymentFailed Devnet.invoice1.paymentHash (some Devnet.invoice1.paymentHash))) ::
    Devnet.steps 5 3 Devnet.ok ++ Devnet.steps 6 8 Devnet.ok

set_option maxRecDepth 100000 in
/-- The relay sends cBTC for an offramp that never had a deposit. -/
theorem devnet_refund_without_deposit : ∃ s, Reachable Devnet.config Devnet.startTime s ∧
    s.world.refunds 1 = 1 ∧ (s.world.offramp 1).map (·.cbtcTxHash) = some "" ∧
    s.world.log.all (fun e => match e.op with
      | .operator _ (.verifyCbtcReceived _ _) => false
      | _ => true) = true := by
  obtain ⟨s, hs, hp⟩ := Devnet.reachable_of_after strayRun (fun s =>
    decide (s.world.refunds 1 = 1 ∧ (s.world.offramp 1).map (·.cbtcTxHash) = some "" ∧
      s.world.log.all (fun e => match e.op with
        | .operator _ (.verifyCbtcReceived _ _) => false
        | _ => true) = true)) (by decide +kernel)
  exact ⟨s, hs, of_decide_eq_true hp⟩

end

end Payout

end LightningRelay
