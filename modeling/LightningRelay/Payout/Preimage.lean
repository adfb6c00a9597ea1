import LightningRelay.Payout.Work

/-!
# Proof of payment

`complete_offramp` stores the preimage of a payment only if it still finds the offramp in
PayingLightning.  The startup, the monitor and the handler of a failed payment may have moved the row
away by then, and the preimage is dropped.

* `mindful`: the condition under which nobody does: LDK accepts one payment under a hash, and makes an
  offramp's while its row is PayingLightning; only `complete_offramp` moves the row on while that
  payment may still succeed; and a second `complete_offramp` does not overtake the first.
* `proofs_sound`: then a row has its preimage, or is still PayingLightning, or is being taken.
* `preimage_stored`: a `complete_offramp` that has returned has left the preimage in the row.
-/

set_option autoImplicit false

namespace LightningRelay

open Async

namespace World

/-- LDK has a payment that a deposit made for the offramp. -/
def ownPayment (w : World) (id : ℤ) : Bool := w.attempts.any fun a => Payout.depositFor id a.payer

/-- LDK has such a payment, and it has not failed. -/
def mayBeSent (w : World) (id : ℤ) : Bool :=
  w.attempts.any fun a => Payout.depositFor id a.payer && a.outcome ≠ some .failed

/-- The row of an offramp is PayingLightning. -/
def paysLightning (w : World) (id : ℤ) : Bool :=
  (w.offramp id).any fun r => r.status = .payingLightning

/-- LDK has sent a payment under this hash and learned this preimage. -/
def Sent (w : World) (h p : String) : Prop :=
  ∃ (j : ℕ) (a : Attempt), w.attempts[j]? = some a ∧ a.paymentHash = h ∧ a.outcome = some (.sent p)

end World

namespace Payout

/-- LDK accepts a payment only under a hash that it does not know, and a deposit's only while the row
is PayingLightning. -/
def paysOnce (s : Sys) : Act → Bool
  | .task tid a =>
    match s.tasks tid with
    | some ⟨c, .op (.ldk (.payForBolt11Invoice invoice amt)) _⟩ =>
      match a.ldk (.payForBolt11Invoice invoice amt) with
      | .error _ => true
      | .ok _ =>
        (s.world.attempts.all fun b => b.paymentHash ≠ invoice.paymentHash) &&
          match c with
          | .handleOfframpDeposit _ req => s.world.paysLightning req.offrampId
          | _ => true
    | _ => true
  | .env _ => true

/-- Only `complete_offramp` moves an offramp on from PayingLightning while its payment may still
succeed, and it does not try to while an earlier one has taken the row and not stored the preimage. -/
def leavesPaying (s : Sys) : Act → Bool
  | .task tid _ =>
    match s.tasks tid with
    | some ⟨.completeOfframp _ _, .op (.db (.transitionOfframpStatus id _ _)) _⟩ =>
      s.world.takes id = 0 || (s.world.offramp id).all fun r => r.lightningPreimage.isSome
    | some ⟨.completeOfframp _ _, _⟩ => true
    | some ⟨_, .op (.db (.updateOfframpStatus id _ _ _ _)) _⟩
    | some ⟨_, .op (.db (.transitionOfframpStatus id .payingLightning _)) _⟩ =>
      !(s.world.paysLightning id && s.world.mayBeSent id)
    | _ => true
  | .env _ => true

/-- The condition under which proofs of payment are kept. -/
def mindful (s : Sys) (a : Act) : Bool := novel s a && paysOnce s a && leavesPaying s a

/-- The offramps with this payment hash that LDK has paid for have this preimage. -/
def Proved (w : World) (h p : String) : Prop :=
  ∀ k r, w.offramp k = some r → r.paymentHash = h → w.ownPayment k = true →
    r.lightningPreimage = some p

/-- What holds of the preimages: a row without one is PayingLightning or taken while its payment may
succeed, and a stored one is that of a payment. -/
structure Proofs (w : World) : Prop where
  single : ∀ (j j' : ℕ) a a', w.attempts[j]? = some a → w.attempts[j']? = some a' →
    a.paymentHash = a'.paymentHash → j = j'
  pending : ∀ k r, w.offramp k = some r → w.mayBeSent k = true → r.lightningPreimage = none →
    r.status = .payingLightning ∨ w.takes k ≠ 0
  source : ∀ k r p, w.offramp k = some r → r.lightningPreimage = some p → w.Sent r.paymentHash p

/-- The row that a `complete_offramp` has read and not given up. -/
def Work.row? : Work → Option OfframpMapping
  | .found m | .took m | .stored m => some m
  | _ => none

/-- The row that a `complete_offramp` has won. -/
def Work.won? : Work → Option OfframpMapping
  | .took m | .stored m => some m
  | _ => none

/-- Where a `complete_offramp` has seen to it that the preimage is in the row. -/
def Work.proven : Work → Bool
  | .unknown | .beaten _ | .stored _ | .concluded _ => true
  | _ => false

/-- What a task knows of the payment that it handles. -/
structure Bears (w : World) (c : Call) (x : Option Work) : Prop where
  sent : ∀ h p, c = .completeOfframp h p ∨ (∃ i, c = .handleLdkEvents (.paymentSent i h p)) →
    w.Sent h p
  row : ∀ h p m, c = .completeOfframp h p → x.bind Work.row? = some m →
    ∃ r, w.offramp m.offrampId = some r ∧ r.paymentHash = h
  won : ∀ m, x.bind Work.won? = some m → w.takes m.offrampId ≠ 0
  proved : ∀ h p, c = .completeOfframp h p → x.all Work.proven = true → Proved w h p

section

variable {cfg : Config} {tid : ℕ} {c : Call} {l l' : Work} {l₁ l₁' : Stage} {o : Op} {r : o.Resp}
  {w w' : World} {sp : Option Call} {k : ℤ} {h p p' : String}

/-! ## Payments -/

theorem Proofs.sent_unique (hP : Proofs w) (hp : w.Sent h p) (hp' : w.Sent h p') : p = p' := by
  obtain ⟨j, a, ha, hh, ho⟩ := hp
  obtain ⟨j', a', ha', hh', ho'⟩ := hp'
  obtain rfl := hP.single j j' a a' ha ha' (hh.trans hh'.symm)
  rw [ha] at ha'
  obtain rfl := Option.some.inj ha'
  rw [ho] at ho'
  exact PayOutcome.sent.inj (Option.some.inj ho')

theorem sent_mono (he : Effect tid c o r w w' sp) (hm : Move cfg c l₁ o r l₁') (hs : w.Sent h p) :
    w'.Sent h p := by
  obtain ⟨j, a, ha, hh, ho⟩ := hs
  exact ⟨j, a, attempt_mono he hm ha, hh, ho⟩

theorem sent_react {e : Env} {ch : Change Call} (hr : Reaction w e w' ch) (hs : w.Sent h p) :
    w'.Sent h p := by
  obtain ⟨j, a, ha, hh, ho⟩ := hs
  exact ⟨j, a, reaction_ended hr ha (by simp [ho]), hh, ho⟩

/-- What the condition says of a payment that LDK accepts. -/
def PaidOnce (c : Call) (o : Op) (w w' : World) : Prop :=
  ∀ invoice amt, o = .ldk (.payForBolt11Invoice invoice amt) → w'.attempts ≠ w.attempts →
    (∀ (j : ℕ) a, w.attempts[j]? = some a → a.paymentHash ≠ invoice.paymentHash) ∧
      ∀ ip req, c = .handleOfframpDeposit ip req → w.paysLightning req.offrampId = true

theorem paidOnce_of_ok {s : Sys} {a : Answers} (hok : paysOnce s (.task tid a) = true)
    (htask : ∃ f, s.tasks tid = some ⟨c, .op o f⟩)
    (hp : World.perform tid c o a s.world = .resume r w' sp) : PaidOnce c o s.world w' := by
  rintro invoice amt rfl hne
  obtain ⟨f, ht⟩ := htask
  have hat := (effect_of_perform hp).attempts
  obtain ⟨rfl, -, -⟩ := Outcome.resume.inj hp
  simp only [paysOnce, ht] at hok
  rcases hans : a.ldk (.payForBolt11Invoice invoice amt) with e | u
  · rw [hans] at hat
    exact absurd hat hne
  · rw [hans] at hok
    simp only [Bool.and_eq_true, List.all_eq_true] at hok
    refine ⟨fun j b hb => ?_, ?_⟩
    · simpa using hok.1 b (List.mem_of_getElem? hb)
    · rintro ip req rfl
      exact hok.2

theorem attempts_ne {j : ℕ} {a : Attempt} (hj : j = w.attempts.length)
    (ha : w'.attempts[j]? = some a) : w'.attempts ≠ w.attempts := by
  intro heq
  rw [heq, hj, List.getElem?_eq_none (Nat.le_refl _)] at ha
  cases ha

/-- A payment was known before, or it is a new one under a new hash. -/
theorem attempt_fresh (he : Effect tid c o r w w' sp) (hm : Move cfg c l₁ o r l₁')
    (hO : PaidOnce c o w w') {j : ℕ} {a : Attempt} (ha : w'.attempts[j]? = some a) :
    w.attempts[j]? = some a ∨ j = w.attempts.length ∧
      ∀ (j : ℕ) b, w.attempts[j]? = some b → b.paymentHash ≠ a.paymentHash := by
  rcases attempt_origin he hm ha with hold | ⟨hj, -, -, invoice, amt, rfl, hhash, -⟩
  · exact Or.inl hold
  · refine Or.inr ⟨hj, ?_⟩
    rw [hhash]
    exact (hO invoice amt rfl (attempts_ne hj ha)).1

/-- A payment for an offramp was known before, or its deposit makes it now, under a new hash and while
the row is PayingLightning. -/
theorem payment_origin (he : Effect tid c o r w w' sp) (hm : Move cfg c l₁ o r l₁')
    (hA : Accounts cfg w) (hK : Knows w tid c l₁) (hO : PaidOnce c o w w') {j : ℕ} {a : Attempt}
    (ha : w'.attempts[j]? = some a) (hk : depositFor k a.payer = true) :
    w.attempts[j]? = some a ∨ ∃ x, w.offramp k = some x ∧ w'.offramp k = some x ∧
      x.status = .payingLightning ∧
      ∀ (j : ℕ) b, w.attempts[j]? = some b → b.paymentHash ≠ x.paymentHash := by
  rcases attempt_origin he hm ha with hold | ⟨hj, hpayer, -, invoice, amt, rfl, -, hc⟩
  · exact Or.inl hold
  rw [hpayer] at hk
  rcases hc with ⟨i, b, rfl⟩ | ⟨ip, id, tx, m, amt', rfl, rfl, -, hinv⟩
  · cases hk
  obtain rfl : id = k := of_decide_eq_true hk
  obtain ⟨hfresh, hpaying⟩ := hO invoice amt rfl (attempts_ne hj ha)
  obtain ⟨x, hx, -, -, hhash⟩ := paymentHash_of_sending hK hA hinv
  have hst := hpaying ip _ rfl
  rw [World.paysLightning, hx, Option.any_some, decide_eq_true_eq] at hst
  exact Or.inr ⟨x, hx, (he.offramp id).trans hx, hst, hhash ▸ hfresh⟩

theorem ownPayment_iff : w.ownPayment k = true ↔
    ∃ (j : ℕ) (a : Attempt), w.attempts[j]? = some a ∧ depositFor k a.payer = true := by
  simp only [World.ownPayment, List.any_eq_true, List.mem_iff_getElem?]
  constructor
  · rintro ⟨a, ⟨j, hj⟩, hk⟩
    exact ⟨j, a, hj, hk⟩
  · rintro ⟨j, a, hj, hk⟩
    exact ⟨a, ⟨j, hj⟩, hk⟩

theorem mayBeSent_iff : w.mayBeSent k = true ↔
    ∃ (j : ℕ) (a : Attempt), w.attempts[j]? = some a ∧ depositFor k a.payer = true ∧
      a.outcome ≠ some .failed := by
  simp only [World.mayBeSent, List.any_eq_true, List.mem_iff_getElem?, Bool.and_eq_true,
    decide_eq_true_eq]
  constructor
  · rintro ⟨a, ⟨j, hj⟩, hk⟩
    exact ⟨j, a, hj, hk⟩
  · rintro ⟨j, a, hj, hk⟩
    exact ⟨a, ⟨j, hj⟩, hk⟩

/-! ## The preimage of a row -/

/-- The preimage of a row changes only when the `complete_offramp` that has won it stores one. -/
theorem preimage_cases (he : Effect tid c o r w w' sp) (hm : Work.Move c l o r l')
    {x : OfframpMapping} (hx : w.offramp k = some x) :
    ∃ y, w'.offramp k = some y ∧ (y.lightningPreimage = x.lightningPreimage ∨
      ∃ h p m, c = .completeOfframp h p ∧ l = .took m ∧ l' = .stored m ∧ m.offrampId = k ∧
        y.lightningPreimage = some p) := by
  obtain ⟨y, hy, rfl | ⟨st, p, d, e, rfl, rfl⟩ | ⟨n, rfl, rfl⟩ | ⟨tx, n, rfl, rfl⟩⟩ :=
    he.offramp_cases hx
  · exact ⟨y, hy, Or.inl rfl⟩
  · refine ⟨_, hy, ?_⟩
    cases hm with
    | quiet ho | unbuilt ho | given ho => cases ho
    | store => exact Or.inr ⟨_, _, _, rfl, rfl, rfl, rfl, rfl⟩
    | revert | unpaid | conclude | fail | withdrawn | expire | clear | finish => exact Or.inl rfl
  · exact ⟨_, hy, Or.inl rfl⟩
  · exact ⟨_, hy, Or.inl rfl⟩

/-- What the condition says of the operations on an offramp. -/
structure LeavesPaying (c : Call) (o : Op) (w : World) : Prop where
  others : (∀ h p, c ≠ .completeOfframp h p) → ∀ id,
    (∃ st p d e, o = .db (.updateOfframpStatus id st p d e)) ∨
      (∃ n, o = .db (.transitionOfframpStatus id .payingLightning n)) →
    w.paysLightning id = true → w.mayBeSent id = false
  again : ∀ h p id e n, c = .completeOfframp h p → o = .db (.transitionOfframpStatus id e n) →
    w.takes id = 0 ∨ ∀ r, w.offramp id = some r → r.lightningPreimage.isSome = true

theorem leavesPaying_of_ok {s : Sys} {a : Answers} (hok : leavesPaying s (.task tid a) = true)
    (htask : ∃ f, s.tasks tid = some ⟨c, .op o f⟩) : LeavesPaying c o s.world := by
  obtain ⟨f, ht⟩ := htask
  constructor
  · intro hc id ho hst
    have hand : (!(s.world.paysLightning id && s.world.mayBeSent id)) = true := by
      rcases ho with ⟨st, p, d, e, rfl⟩ | ⟨n, rfl⟩ <;> cases c with
      | completeOfframp h p => exact absurd rfl (hc h p)
      | _ => simpa only [leavesPaying, ht] using hok
    rw [hst, Bool.true_and, Bool.not_eq_true'] at hand
    exact hand
  · rintro h p id e n rfl rfl
    simp only [leavesPaying, ht, Bool.or_eq_true, decide_eq_true_eq] at hok
    refine hok.imp_right fun hall r hr => ?_
    simpa only [hr, Option.all_some] using hall

theorem takes_mono (he : Effect tid c o r w w' sp) (hne : w.takes k ≠ 0) : w'.takes k ≠ 0 := by
  rw [takes_eq he]
  omega

/-- A row in PayingLightning whose payment may succeed stays so, or a `complete_offramp` takes it. -/
theorem paying_move (he : Effect tid c o r w w' sp) (hm : Work.Move c l o r l')
    (hB : Bears w c (some l)) (hl : LeavesPaying c o w) {x : OfframpMapping}
    (hx : w.offramp k = some x) (hst : x.status = .payingLightning)
    (hsent : w.mayBeSent k = true) :
    ∃ y, w'.offramp k = some y ∧ (y.status = .payingLightning ∨ w'.takes k ≠ 0) := by
  have hpays : w.paysLightning k = true := by
    rw [World.paysLightning, hx, Option.any_some, hst]
    rfl
  -- any other task is excluded by the condition
  have hcomplete : (∃ st p d e, o = .db (.updateOfframpStatus k st p d e)) ∨
      (∃ n, o = .db (.transitionOfframpStatus k .payingLightning n)) →
      ∃ h p, c = .completeOfframp h p := by
    intro ho
    by_contra hno
    push Not at hno
    rw [hl.others hno k ho hpays] at hsent
    cases hsent
  obtain ⟨y, hy, rfl | ⟨st, p, d, e, rfl, rfl⟩ | ⟨n, ho, rfl⟩ | ⟨tx, n, ho, rfl⟩⟩ :=
    he.offramp_cases hx
  · exact ⟨y, hy, Or.inl hst⟩
  · obtain ⟨h, p, rfl⟩ := hcomplete (Or.inl ⟨st, p, d, e, rfl⟩)
    refine ⟨_, hy, Or.inr (takes_mono he ?_)⟩
    cases hm with
    | quiet ho => cases ho
    | store | conclude => exact hB.won _ rfl
  · rw [hst] at ho
    obtain ⟨h, p, rfl⟩ := hcomplete (Or.inr ⟨n, ho⟩)
    subst ho
    have hans : r = true :=
      he.answered.trans (SwapDb.transitionOfframpStatus_fst_iff.2 ⟨x, hx, hst⟩)
    refine ⟨_, hy, Or.inr ?_⟩
    rw [takes_eq he]
    cases hm with
    | quiet ho => cases ho
    | take => simp [Entry.takes, Entry.taken?]
    | lose => cases hans
  · rw [hst] at ho
    subst ho
    cases hm with
    | quiet ho | unbuilt ho | given ho => cases ho

/-! ## One move -/

/-- An operation of a task in a mindful run, with what is known before it. -/
structure MindfulMove (cfg : Config) (tid : ℕ) (c : Call) (l₁ l₁' : Stage) (l l' : Work) (o : Op)
    (r : o.Resp) (w w' : World) (sp : Option Call) : Prop where
  effect : Effect tid c o r w w' sp
  move : Move cfg c l₁ o r l₁'
  work : Work.Move c l o r l'
  accounts : Accounts cfg w
  unique : UniqueHash w
  knows : Knows w tid c l₁
  novel : Novel o w
  once : PaidOnce c o w w'
  leaves : LeavesPaying c o w
  proofs : Proofs w
  bears : Bears w c (some l)

variable (M : MindfulMove cfg tid c l₁ l₁' l l' o r w w' sp)

include M in
theorem proofs_move : Proofs w' where
  single j j' a a' ha ha' hhash := by
    rcases attempt_fresh M.effect M.move M.once ha with hold | ⟨hj, hnew⟩ <;>
      rcases attempt_fresh M.effect M.move M.once ha' with hold' | ⟨hj', hnew'⟩
    · exact M.proofs.single j j' a a' hold hold' hhash
    · exact absurd hhash (hnew' j a hold)
    · exact absurd hhash.symm (hnew j' a' hold')
    · exact hj.trans hj'.symm
  pending k y hy hsent hnone := by
    obtain ⟨j, a, ha, hk, hout⟩ := mayBeSent_iff.1 hsent
    rcases payment_origin M.effect M.move M.accounts M.knows M.once ha hk with hold | ⟨x, hx, hy', hst, -⟩
    · obtain ⟨x, hx, -, -⟩ := M.accounts.deposits j a k hold hk
      have hsent₀ := mayBeSent_iff.2 ⟨j, a, hold, hk, hout⟩
      obtain ⟨z, hz, hpre⟩ := preimage_cases M.effect M.work hx
      rw [hy] at hz
      obtain rfl := Option.some.inj hz
      rcases hpre with hpre | ⟨h, p, m, -, -, -, -, hpre⟩
      · rcases M.proofs.pending k x hx hsent₀ (hpre ▸ hnone) with hst | htake
        · obtain ⟨z, hz, hcase⟩ := paying_move M.effect M.work M.bears M.leaves hx hst hsent₀
          rw [hy] at hz
          exact Option.some.inj hz ▸ hcase
        · exact Or.inr (takes_mono M.effect htake)
      · rw [hpre] at hnone
        cases hnone
    · rw [hy] at hy'
      exact Or.inl (Option.some.inj hy' ▸ hst)
  source k y p hy hpre := by
    rcases hx : w.offramp k with _ | x
    · obtain ⟨m, -, rfl⟩ := M.effect.offramp_of_none hx hy
      cases hpre
    · refine sent_mono M.effect M.move ?_
      obtain ⟨z, hz, hs⟩ := offramp_mono M.effect M.move hx
      rw [hy] at hz
      obtain rfl := Option.some.inj hz
      rw [hs.paymentHash]
      obtain ⟨z, hz, hcase | ⟨h, p', m, rfl, rfl, -, rfl, hp'⟩⟩ := preimage_cases M.effect M.work hx
      · rw [hy] at hz
        obtain rfl := Option.some.inj hz
        exact M.proofs.source k x p hx (hcase ▸ hpre)
      · rw [hy] at hz
        obtain rfl := Option.some.inj hz
        obtain ⟨x', hx', hhash⟩ := M.bears.row h p' m rfl rfl
        rw [hx] at hx'
        obtain rfl := Option.some.inj hx'
        rw [hpre] at hp'
        rw [hhash, Option.some.inj hp']
        exact M.bears.sent h p' (Or.inl rfl)

include M in
/-- The offramps with the hash of a payment that was sent keep their preimages. -/
theorem proved_mono (hs : w.Sent h p) (hpr : Proved w h p) : Proved w' h p := by
  intro k y hy hhash hown
  obtain ⟨j, a, ha, hah, -⟩ := id hs
  rcases hx : w.offramp k with _ | x
  · -- a row is not inserted under a hash that LDK has seen
    obtain ⟨m, rfl, rfl⟩ := M.effect.offramp_of_none hx hy
    exact absurd (hah.trans hhash.symm) (not_attempt_of_unknownHash (M.novel m rfl) ha)
  obtain ⟨z, hz, hsame⟩ := offramp_mono M.effect M.move hx
  rw [hy] at hz
  obtain rfl := Option.some.inj hz
  have hxh : x.paymentHash = h := hsame.paymentHash.symm.trans hhash
  obtain ⟨i, b, hb, hk⟩ := ownPayment_iff.1 hown
  have hxp : x.lightningPreimage = some p := by
    rcases payment_origin M.effect M.move M.accounts M.knows M.once hb hk with hold | ⟨x', hx', -, -, hfresh⟩
    · exact hpr k x hx hxh (ownPayment_iff.2 ⟨i, b, hold, hk⟩)
    · rw [hx] at hx'
      obtain rfl := Option.some.inj hx'
      exact absurd (hah.trans hxh.symm) (hfresh j a ha)
  obtain ⟨z, hz, hcase | ⟨h', p', m, rfl, rfl, -, rfl, hp'⟩⟩ := preimage_cases M.effect M.work hx
  · rw [hy] at hz
    obtain rfl := Option.some.inj hz
    exact hcase.trans hxp
  · -- the preimage is stored again by another call for the same payment
    rw [hy] at hz
    obtain rfl := Option.some.inj hz
    obtain ⟨x', hx', hxh'⟩ := M.bears.row h' p' m rfl rfl
    rw [hx] at hx'
    obtain rfl := Option.some.inj hx'
    obtain rfl := hxh'.symm.trans hxh
    rw [hp', M.proofs.sent_unique (M.bears.sent _ p' (Or.inl rfl)) hs]

include M in
theorem bears_mono {d : Call} {x : Option Work} (hB' : Bears w d x) : Bears w' d x where
  sent h p hd := sent_mono M.effect M.move (hB'.sent h p hd)
  row h p m hd hx := by
    obtain ⟨y, hy, hhash⟩ := hB'.row h p m hd hx
    obtain ⟨z, hz, hs⟩ := offramp_mono M.effect M.move hy
    exact ⟨z, hz, hs.paymentHash.trans hhash⟩
  won m hx := takes_mono M.effect (hB'.won m hx)
  proved h p hd hx :=
    proved_mono M (hB'.sent h p (Or.inl hd)) (hB'.proved h p hd hx)

/-- A `complete_offramp` that finds its row moved on finds the preimage in it. -/
theorem proved_of_lose {m : OfframpMapping} (hA : Accounts cfg w) (hU : UniqueHash w)
    (hP : Proofs w) (hB : Bears w (.completeOfframp h p) (some (.found m)))
    (hnot : ∀ x, w.offramp m.offrampId = some x → x.status ≠ .payingLightning)
    (hagain : w.takes m.offrampId = 0 ∨
      ∀ x, w.offramp m.offrampId = some x → x.lightningPreimage.isSome = true) :
    Proved w h p := by
  intro k x hx hhash hown
  obtain ⟨z, hz, hzh⟩ := hB.row h p m rfl rfl
  obtain rfl := hU k m.offrampId x z hx hz (hhash.trans hzh.symm)
  obtain ⟨j, a, ha, hk⟩ := ownPayment_iff.1 hown
  obtain ⟨i, b, hb, hbh, hbo⟩ := hB.sent h p (Or.inl rfl)
  -- LDK has one payment under the hash, so the offramp's own is the one that was sent
  have hah : a.paymentHash = h := by
    obtain ⟨y, hy, -, hay⟩ := hA.deposits j a _ ha hk
    rw [hx] at hy
    rw [hay, ← Option.some.inj hy, hhash]
  obtain rfl := hP.single j i a b ha hb (hah.trans hbh.symm)
  rw [ha] at hb
  obtain rfl := Option.some.inj hb
  have hmay : w.mayBeSent m.offrampId = true :=
    mayBeSent_iff.2 ⟨j, a, ha, hk, by rw [hbo]; exact nofun⟩
  rcases hpre : x.lightningPreimage with _ | p'
  · rcases hP.pending _ x hx hmay hpre with hst | htake
    · exact absurd hst (hnot x hx)
    · have hsome := hagain.resolve_left htake x hx
      rw [hpre] at hsome
      cases hsome
  · have hsent := hP.source _ x p' hx hpre
    rw [hhash] at hsent
    rw [hP.sent_unique hsent (hB.sent h p (Or.inl rfl))]

theorem row?_of_move {m : OfframpMapping} (hm : Work.Move (.completeOfframp h p) l o r l')
    (hl : l'.row? = some m) : l.row? = some m ∨
      o = .db (.getOfframpByPaymentHash h) ∧ HEq r (some m) := by
  cases hm with
  | quiet => exact Or.inl hl
  | find =>
    obtain rfl := Option.some.inj hl
    exact Or.inr ⟨rfl, HEq.rfl⟩
  | take | store => exact Or.inl hl
  | _ => cases hl

include M in
theorem bears_move : Bears w' c (some l') where
  sent h p hc := sent_mono M.effect M.move (M.bears.sent h p hc)
  row := by
    rintro h p m rfl hx
    have hrow : ∃ y, w.offramp m.offrampId = some y ∧ y.paymentHash = h := by
      rcases row?_of_move M.work hx with hold | ⟨rfl, hr⟩
      · exact M.bears.row h p m rfl hold
      · exact ⟨m, SwapDb.getOfframpByPaymentHash_eq_some (M.effect.answered.symm.trans (eq_of_heq hr))⟩
    obtain ⟨y, hy, hhash⟩ := hrow
    obtain ⟨z, hz, hs⟩ := offramp_mono M.effect M.move hy
    exact ⟨z, hz, hs.paymentHash.trans hhash⟩
  won m hx := by
    cases M.work with
    | quiet | handed | store => exact takes_mono M.effect (M.bears.won m hx)
    | take =>
      obtain rfl := Option.some.inj hx
      rw [takes_eq M.effect]
      simp [Entry.takes, Entry.taken?]
    | _ => cases hx
  proved := by
    rintro h p rfl hx
    have hkeep : Proved w h p → Proved w' h p := fun hpr =>
      proved_mono M (M.bears.sent h p (Or.inl rfl)) hpr
    have hans := M.effect.answered
    cases M.work with
    | quiet => exact hkeep (M.bears.proved h p rfl hx)
    | conclude => exact hkeep (M.bears.proved h p rfl rfl)
    | missing =>
      refine hkeep fun k x hxr hhash _ => ?_
      exact absurd hhash (SwapDb.getOfframpByPaymentHash_eq_none_iff.1 hans.symm k x hxr)
    | @lose _ _ m =>
      refine hkeep (proved_of_lose M.accounts M.unique M.proofs M.bears ?_ (M.leaves.again h p _ _ _ rfl rfl))
      intro x hxr hst
      exact Bool.false_ne_true
        (hans.trans (SwapDb.transitionOfframpStatus_fst_iff.2 ⟨x, hxr, hst⟩))
    | @store _ _ m =>
      intro k y hy hhash _
      rcases hxr : w.offramp k with _ | x
      · obtain ⟨_, ho, -⟩ := M.effect.offramp_of_none hxr hy
        cases ho
      obtain ⟨z, hz, hs⟩ := offramp_mono M.effect M.move hxr
      rw [hy] at hz
      obtain rfl := Option.some.inj hz
      obtain ⟨x', hx', hxh'⟩ := M.bears.row h p m rfl rfl
      obtain rfl := M.unique k m.offrampId x x' hxr hx' (hs.paymentHash.symm.trans (hhash.trans hxh'.symm))
      have hrow := M.effect.offramp m.offrampId
      rw [hy, hxr] at hrow
      simp only [Op.onOfframp, DbCall.onOfframp, if_true, Option.map_some] at hrow
      rw [Option.some.inj hrow]
      rfl
    | _ => cases hx

/-- A `complete_offramp` ends where it has seen to the preimage. -/
theorem bears_quit (hB : Bears w c (some l)) (hend : Work.ends c l = true) : Bears w c none where
  sent := hB.sent
  row _ _ _ _ hx := nomatch hx
  won _ hx := nomatch hx
  proved := by
    rintro h p rfl -
    refine hB.proved h p rfl ?_
    cases l with
    | unknown | beaten | concluded => rfl
    | _ => cases hend

/-! ## All runs -/

theorem bears_start (hs : ∀ h p, c = .completeOfframp h p ∨
    (∃ i, c = .handleLdkEvents (.paymentSent i h p)) → w.Sent h p) :
    Bears w c (some (work.start c)) where
  sent := hs
  row _ _ _ _ hx := nomatch hx
  won _ hx := nomatch hx
  proved _ _ _ hx := nomatch hx

theorem bears_boot : Bears w .startLdk (some (work.start .startLdk)) :=
  bears_start fun _ _ h => by rcases h with h | ⟨_, h⟩ <;> cases h

/-- A `complete_offramp` is started for an event that reports its payment. -/
theorem sent_of_spawn {c' : Call} (he : Effect tid c o r w w' (some c'))
    (hm₁ : Move cfg c l₁ o r l₁') (hm : Work.Move c l o r l') (hB : Bears w c (some l))
    (hc : c' = .completeOfframp h p ∨ ∃ i, c' = .handleLdkEvents (.paymentSent i h p)) :
    w'.Sent h p := by
  rcases hc with rfl | ⟨i, rfl⟩
  · have ho : o = .spawn (.completeOfframp h p) := by
      have hsp := he.spawned
      cases o with
      | spawn c' => rw [Option.some.inj hsp]
      | _ => cases hsp
    subst ho
    cases hm with
    | quiet ho | unbuilt ho | given ho => cases ho
    | handed => exact sent_mono he hm₁ (hB.sent h p (Or.inr ⟨_, rfl⟩))
  · rcases spawn_cases he hm₁ with ⟨hplain, -⟩ | ⟨_, _, -, -, -, hc⟩
    · cases hplain
    · cases hc

theorem proofs_react {e : Env} {ch : Change Call} (hr : Reaction w e w' ch) (hP : Proofs w) :
    Proofs w' where
  single j j' a a' ha ha' hhash := by
    obtain ⟨b, hb, hbh, -⟩ := reaction_attempts hr ha
    obtain ⟨b', hb', hbh', -⟩ := reaction_attempts hr ha'
    exact hP.single j j' b b' hb hb' (hbh.symm.trans (hhash.trans hbh'))
  pending k x hx hsent hnone := by
    have htakes : w'.takes k = w.takes k := by
      rw [World.takes, hr.calm.log, World.takes]
    rw [htakes]
    refine hP.pending k x (hr.calm.offramp k ▸ hx) ?_ hnone
    obtain ⟨j, a, ha, hk, hout⟩ := mayBeSent_iff.1 hsent
    cases hr with
    | @settle i b outcome hb hopen =>
      obtain ⟨a₀, ha₀, -, hpayer, hcase⟩ := settle_getElem? ha
      refine mayBeSent_iff.2 ⟨j, a₀, ha₀, hpayer ▸ hk, ?_⟩
      rcases hcase with rfl | rfl
      · exact hout
      · rw [hb] at ha₀
        rw [← Option.some.inj ha₀, hopen]
        intro hfailed
        cases hfailed
    | _ => exact mayBeSent_iff.2 ⟨j, a, ha, hk, hout⟩
  source k x p hx hpre := sent_react hr (hP.source k x p (hr.calm.offramp k ▸ hx) hpre)

theorem bears_react {e : Env} {ch : Change Call} {x : Option Work} (hr : Reaction w e w' ch)
    (hB : Bears w c x) : Bears w' c x where
  sent h p hc := sent_react hr (hB.sent h p hc)
  row h p m hc hx := by
    rw [hr.calm.offramp]
    exact hB.row h p m hc hx
  won m hx := by
    rw [World.takes, hr.calm.log]
    exact hB.won m hx
  proved h p hc hx k y hy hhash hown := by
    refine hB.proved h p hc hx k y (hr.calm.offramp k ▸ hy) hhash ?_
    obtain ⟨j, a, ha, hk⟩ := ownPayment_iff.1 hown
    obtain ⟨b, hb, -, hpayer⟩ := reaction_attempts hr ha
    exact ownPayment_iff.2 ⟨j, b, hb, hpayer ▸ hk⟩

/-- The environment starts no `complete_offramp`, and delivers PaymentSent for sent payments. -/
theorem sent_of_react {e : Env} (hr : Reaction w e w' (.spawn c))
    (hc : c = .completeOfframp h p ∨ ∃ i, c = .handleLdkEvents (.paymentSent i h p)) :
    w'.Sent h p := by
  rcases hc with rfl | ⟨i, rfl⟩
  · rcases hr.spawn with ⟨-, hc⟩ | ⟨_, -, hc, -⟩ <;> cases hc
  · rcases hr.spawn with ⟨-, hc⟩ | ⟨event, -, hc, hcan⟩
    · cases hc
    · obtain rfl := Call.handleLdkEvents.inj hc
      simp only [World.canDeliver, Bool.and_eq_true, List.any_eq_true, decide_eq_true_eq] at hcan
      obtain ⟨-, a, hmem, hhash, hout⟩ := hcan
      obtain ⟨j, hj⟩ := List.mem_iff_getElem?.1 hmem
      exact sent_react hr ⟨j, a, hj, hhash, hout⟩

/-- The payment hashes with the proofs of payment. -/
def proofs (cfg : Config) : Discipline Op Op.Resp World Call (Stage × Option Work) :=
  ((hashes cfg).refine work).extend Proofs (fun w _ c l => Bears w c l.2) fun _ _ _ _ => True

theorem mindful_cases {s : Sys} {a : Act} (hok : mindful s a = true) :
    novel s a = true ∧ paysOnce s a = true ∧ leavesPaying s a = true := by
  simpa only [mindful, Bool.and_eq_true, and_assoc] using hok

theorem mindfulMove_of_turn {s : Sys} {a : Answers} {x : Stage × Option Work} {now : ℤ}
    (turn : (proofs cfg).Turn (relay cfg) (fun s a => mindful s a = true) (World.fresh cfg now) s
      tid c o a x)
    (hp : World.perform tid c o a s.world = .resume r w' sp) (hm : Move cfg c x.1 o r l₁')
    (hl : x.2 = some l) (hW : Work.Move c l o r l') :
    MindfulMove cfg tid c x.1 l₁' l l' o r s.world w' sp := by
  obtain ⟨hnovel, hpays, hleaves⟩ := mindful_cases turn.ok
  exact {
    effect := effect_of_perform hp
    move := hm
    work := hW
    accounts := turn.shared.1.1.2
    unique := turn.shared.1.2
    knows := turn.owned.1.1.1
    novel := novel_of_ok turn.task hnovel
    once := paidOnce_of_ok hpays turn.task hp
    leaves := leavesPaying_of_ok hleaves turn.task
    proofs := turn.shared.2
    bears := hl ▸ turn.owned.2 }

theorem proofs_sound (cfg : Config) (now : ℤ) :
    (proofs cfg).Sound (relay cfg) (fun s a => mindful s a = true) (World.fresh cfg now) := by
  refine ((hashes_sound cfg now).refine (body_works cfg)).extend
    (fun _ _ hok => (mindful_cases hok).1) ?_
  exact {
    symm := fun _ => trivial
    init := ⟨⟨fun _ _ _ _ h => (nomatch h), fun _ _ h => (nomatch h), fun _ _ _ h => (nomatch h)⟩,
      bears_boot⟩
    move := fun turn hp hm => by
      obtain ⟨m, m', hl, hW, hl'⟩ := hm.2.cases
      have M := mindfulMove_of_turn turn hp hm.1 hl hW
      refine ⟨proofs_move M, ?_⟩
      rcases hl' with hl' | ⟨hl', hend⟩ <;> rw [hl']
      · exact bears_move M
      · exact bears_quit (bears_move M) hend
    others := fun turn hp hm _ _ _ howned _ => by
      obtain ⟨m, m', hl, hW, -⟩ := hm.2.cases
      exact ⟨bears_mono (mindfulMove_of_turn turn hp hm.1 hl hW) howned.2, trivial⟩
    spawned := fun turn hp hm => by
      obtain ⟨m, m', hl, hW, -⟩ := hm.2.cases
      have M := mindfulMove_of_turn turn hp hm.1 hl hW
      exact ⟨bears_start fun _ _ hc => sent_of_spawn M.effect M.move M.work M.bears hc, trivial,
        fun _ _ _ _ _ => trivial⟩
    abort := fun turn hp => by
      obtain rfl := abort_of_perform hp
      exact ⟨proofs_react .crash turn.shared.2, bears_boot⟩
    react := fun next hr => proofs_react (reaction_of_react hr) next.shared.2
    reactOthers := fun _ hr _ _ _ howned => bears_react (reaction_of_react hr) howned.2
    reactSpawn := fun _ hr =>
      ⟨bears_start fun _ _ hc => sent_of_react (reaction_of_react hr) hc, fun _ _ _ => trivial⟩
    reactRestart := fun _ _ => bears_boot }

end

/-! ## What follows -/

section

variable {cfg : Config} {now : ℤ} {s : Sys}

/-- In every mindful run: when a `complete_offramp` for the hash of an offramp's own payment has
returned, the offramp has the preimage that it was called with. -/
theorem preimage_stored (hs : ReachableBy cfg now (fun s a => mindful s a = true) s) {tid : ℕ}
    {h p : String} {rest : Relay Unit}
    (ht : s.tasks tid = some ⟨.completeOfframp h p, rest⟩) (hend : rest.ended = true)
    {a : Attempt} (ha : a ∈ s.world.attempts) (hhash : a.paymentHash = h) {k : ℤ}
    (hk : depositFor k a.payer = true) :
    ∃ r, s.world.offramp k = some r ∧ r.lightningPreimage = some p := by
  obtain ⟨L, hL⟩ := (proofs_sound cfg now).holds hs
  have hB : Bears s.world (.completeOfframp h p) (L tid).2 := (hL.owned ht).2
  rw [Discipline.eq_none_of_refine (hL.keeps ht) hend nofun] at hB
  obtain ⟨j, hj⟩ := List.mem_iff_getElem?.1 ha
  obtain ⟨r, hr, -, hrh⟩ := hL.shared.1.1.2.deposits j a k hj hk
  refine ⟨r, hr, hB.proved h p rfl rfl k r hr (hrh.symm.trans hhash) ?_⟩
  exact ownPayment_iff.2 ⟨j, a, hj, hk⟩

end

set_option maxRecDepth 100000 in
/-- The first offramp of the devnet is paid and completed, with the preimage of the event. -/
theorem preimage_stored_completed : ∃ s r rest,
    ReachableBy Devnet.config Devnet.startTime (fun s a => mindful s a = true) s ∧
    s.tasks 6 = some ⟨.completeOfframp Devnet.invoice1.paymentHash "preimage", rest⟩ ∧
    rest.ended = true ∧ s.world.offramp 1 = some r ∧ r.lightningPreimage = some "preimage" := by
  obtain ⟨s, hs, hp⟩ := Devnet.reachableBy_of_after mindful Devnet.completedRun (fun s =>
    ((s.tasks 6).any fun t => t.rest.ended &&
      t.call = .completeOfframp Devnet.invoice1.paymentHash "preimage") &&
    s.world.attempts.map (fun a => (a.paymentHash, depositFor 1 a.payer)) =
      [(Devnet.invoice1.paymentHash, true)]) (by decide +kernel)
  simp only [Bool.and_eq_true, Option.any_eq_true, decide_eq_true_eq] at hp
  obtain ⟨⟨⟨c, rest⟩, ht, hend, rfl⟩, hatt⟩ := hp
  obtain ⟨a, ha, heq⟩ := List.map_eq_singleton_iff.1 hatt
  obtain ⟨hhash, hpay⟩ := Prod.mk.inj heq
  obtain ⟨r, hr, hpre⟩ := preimage_stored hs ht hend (ha ▸ List.mem_singleton_self a) hhash hpay
  exact ⟨s, r, rest, hs, ht, hend, hr, hpre⟩

/-- The relay goes down while the payment of the first offramp is in flight, its recovery marks the
offramp Failed, and then the payment succeeds. -/
def droppedRun : List Act :=
  Devnet.paidRun ++ .env .crash :: Devnet.steps 5 9 Devnet.ok ++
    .env (.settle 0 (.sent "preimage")) ::
    .env (.deliver
      (.paymentSent (some Devnet.invoice1.paymentHash) Devnet.invoice1.paymentHash "preimage")) ::
    Devnet.steps 8 4 Devnet.ok ++ Devnet.steps 9 2 Devnet.ok

set_option maxRecDepth 100000 in
/-- The `complete_offramp` of the offramp's own payment has returned, and the preimage is not in the
row. -/
theorem devnet_preimage_dropped : ∃ s r rest, Reachable Devnet.config Devnet.startTime s ∧
    s.tasks 9 = some ⟨.completeOfframp Devnet.invoice1.paymentHash "preimage", rest⟩ ∧
    rest.ended = true ∧
    s.world.attempts.map (fun a => (a.paymentHash, depositFor 1 a.payer, a.outcome)) =
      [(Devnet.invoice1.paymentHash, true, some (.sent "preimage"))] ∧
    s.world.offramp 1 = some r ∧ r.status = .failed ∧ r.lightningPreimage = none := by
  obtain ⟨s, hs, hp⟩ := Devnet.reachable_of_after droppedRun (fun s =>
    ((s.tasks 9).any fun t => t.rest.ended &&
      t.call = .completeOfframp Devnet.invoice1.paymentHash "preimage") &&
    s.world.attempts.map (fun a => (a.paymentHash, depositFor 1 a.payer, a.outcome)) =
      [(Devnet.invoice1.paymentHash, true, some (.sent "preimage"))] &&
    (s.world.offramp 1).any fun r => r.status = .failed && r.lightningPreimage = none)
    (by decide +kernel)
  simp only [Bool.and_eq_true, Option.any_eq_true, decide_eq_true_eq] at hp
  obtain ⟨⟨⟨⟨c, rest⟩, ht, hend, rfl⟩, hatt⟩, r, hr, hst, hpre⟩ := hp
  exact ⟨s, r, rest, hs, ht, hend, hatt, hr, hst, hpre⟩

end Payout

end LightningRelay
