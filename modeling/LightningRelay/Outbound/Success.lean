import LightningRelay.Devnet
import LightningRelay.Outbound.Protocol

/-!
# Recorded payments

* `devnet_success_lost`: an invoice is sent a second time, its entry loses the success, or is marked
  Failed while the first payment is in flight.
* `outbound_success_durable`: where sends and reports of one payment id do not overlap and the process
  does not go down between a success and its write (`singly`), a success is kept for good and the entry
  of a payment in flight is not Failed.
-/

set_option autoImplicit false

namespace LightningRelay

open Async

/-! ## One payment at a time -/

/-- The payment id whose entry was stored. -/
def Entry.recorded? : Entry → Option String
  | ⟨_, _, .store (.insertOutbound id _), _⟩ => some id
  | _ => none

/-- The handler of a PaymentFailed event for this payment id. -/
def Call.reports (id : String) : Call → Bool
  | .handleLdkEvents (.paymentFailed id' _) => id' = id
  | _ => false

/-- The tasks that have stored an entry for the payment id and have not ended. -/
def senders (s : State Op Op.Resp Durable Call) (id : String) : List ℕ :=
  (List.range s.next).filter fun tid =>
    (s.tasks tid).any (fun t => !t.rest.ended) &&
      s.world.world.log.any fun e => e.tid = tid && e.recorded? = some id

/-- The successes of LDK's payments that the store has are in the file as well. -/
def Durable.successesFiled (x : Durable) : Bool :=
  x.world.attempts.all fun a =>
    match a.outcome with
    | some (.sent preimage) => !x.payments.paid a.paymentHash preimage ||
        (x.paymentsWith x.file.2).paid a.paymentHash preimage
    | _ => true

/-- `send_payment` stores its entry, and a PaymentFailed event is handed over, only while LDK has no
payment under the id that is in flight or was sent and no other task sends it; no entry is stored
while a PaymentFailed event of the id is being handled; and the process goes down only while the file
has the successes that the store has. -/
def singly (s : State Op Op.Resp Durable Call) : Action Answers Around → Bool
  | .task tid _ =>
    match s.tasks tid with
    | some ⟨_, .op (.store (.insertOutbound id _)) _⟩ =>
      !s.world.payments.live id && (senders s id).all (· = tid) && !s.running (Call.reports id)
    | some ⟨_, .op (.panic _) _⟩ => s.world.successesFiled
    | _ => true
  | .env (.env .crash) => s.world.successesFiled
  | .env (.env (.deliver (.paymentFailed id _))) =>
    !s.world.payments.live id && (senders s id).isEmpty
  | _ => true

namespace Outbound

/-! ## The books -/

section

variable {p p' : Payments} {id preimage : String} {l l' n : Stage} {a : Attempt}

theorem live_eq_true : p.live id = true ↔
    ∃ a ∈ p.attempts, a.paymentHash = id ∧ a.outcome ≠ some .failed := by
  simp [Payments.live]

theorem inFlight_eq_true : p.inFlight id = true ↔
    ∃ a ∈ p.attempts, a.paymentHash = id ∧ a.outcome = none := by
  simp [Payments.inFlight]

theorem paid_eq_true : p.paid id preimage = true ↔
    ∃ info, p.outbound id = some info ∧ info.status = .succeeded ∧ info.preimage = some preimage := by
  simp [Payments.paid, Option.any_eq_true]

theorem paid_congr (h : p'.outbound id = p.outbound id) :
    p'.paid id preimage = p.paid id preimage := by
  rw [Payments.paid, h, Payments.paid]

theorem live_of_inFlight (h : p.inFlight id = true) : p.live id = true := by
  obtain ⟨a, ha, hid, hout⟩ := inFlight_eq_true.1 h
  exact live_eq_true.2 ⟨a, ha, hid, by simp [hout]⟩

/-- LDK has sent the payment and learned this preimage. -/
def Sent (p : Payments) (id preimage : String) : Prop :=
  ∃ a ∈ p.attempts, a.paymentHash = id ∧ a.outcome = some (.sent preimage)

theorem live_of_sent (h : Sent p id preimage) : p.live id = true := by
  obtain ⟨a, ha, hid, hout⟩ := h
  exact live_eq_true.2 ⟨a, ha, hid, by simp [hout]⟩

/-- What holds of the payments: one that has not failed for each id, a success in the store only where
LDK sent the payment, an entry that is not Failed for each payment in flight, and all of these in LDK's
list. -/
structure Books (p : Payments) : Prop where
  single : ∀ (i j : ℕ) a b, p.attempts[i]? = some a → p.attempts[j]? = some b →
    a.paymentHash = b.paymentHash → a.outcome ≠ some .failed → b.outcome ≠ some .failed → i = j
  paid : ∀ id preimage, p.paid id preimage = true → Sent p id preimage
  entry : ∀ id, p.inFlight id = true → ∃ info, p.outbound id = some info ∧ info.status ≠ .failed
  listed : ∀ id, p.inFlight id = true → id ∈ p.recent

/-- What a task knows of the payment that it is about. -/
def Knows (p : Payments) : Stage → Prop
  | .idle => True
  | .holding id _ => p.live id = false ∧ ∃ info, p.outbound id = some info ∧ info.status ≠ .failed
  | .failing id => p.live id = false
  | .sent id preimage => Sent p id preimage

/-- Of the tasks that are about one payment id, none is sending it but one. -/
def Apart : Stage → Stage → Prop
  | .holding a _, .holding b _ | .holding a _, .failing b | .failing a, .holding b _ => a ≠ b
  | _, _ => True

theorem Apart.symm (h : Apart l n) : Apart n l := by
  cases l <;> cases n <;> first | exact Ne.symm h | trivial

theorem apart_idle (l : Stage) : Apart l .idle := by
  cases l <;> trivial

theorem preimage_unique (hB : Books p) {q : String} (h : Sent p id preimage) (h' : Sent p id q) :
    q = preimage := by
  obtain ⟨a, ha, hid, hout⟩ := h
  obtain ⟨b, hb, hid', hout'⟩ := h'
  obtain ⟨i, hi⟩ := List.getElem?_of_mem ha
  obtain ⟨j, hj⟩ := List.getElem?_of_mem hb
  obtain rfl := hB.single i j a b hi hj (hid.trans hid'.symm) (by simp [hout]) (by simp [hout'])
  rw [hi] at hj
  obtain rfl := Option.some.inj hj
  rw [hout] at hout'
  exact (PayOutcome.sent.inj (Option.some.inj hout')).symm

/-- A task that sends a payment or reports its failure knows that there is no other payment of the
id. -/
theorem live_of_mark (hK : Knows p l) (hl : l = .holding id true ∨ l = .failing id) : p.live id = false := by
  rcases hl with rfl | rfl
  · exact hK.1
  · exact hK

theorem mem_attempts_mono (hs : Step p l p' l') (h : a ∈ p.attempts) : a ∈ p'.attempts := by
  cases hs with
  | pay => exact List.mem_append_left _ h
  | _ => exact h

theorem sent_mono (hs : Step p l p' l') (h : Sent p id preimage) : Sent p' id preimage := by
  obtain ⟨a, ha, hid, hout⟩ := h
  exact ⟨a, mem_attempts_mono hs ha, hid, hout⟩

/-- An entry is stored only where there is no payment of the id. -/
def Unused (p : Payments) (l l' : Stage) : Prop :=
  ∀ id, l = .idle → l' = .holding id false → p.live id = false

/-- A success stays. -/
theorem paid_step (hs : Step p l p' l') (hB : Books p) (hK : Knows p l) (hU : Unused p l l')
    (h : p.paid id preimage = true) : p'.paid id preimage = true := by
  have hlive : ∀ k, p.live k = false → id ≠ k := by
    rintro k hk rfl
    rw [live_of_sent (hB.paid id preimage h)] at hk
    cases hk
  cases hs with
  | stay | write | pay => exact h
  | @record k info =>
    exact (paid_congr (Function.update_of_ne (hlive k (hU k rfl rfl)) ..)).trans h
  | @mark _ k hl =>
    exact (paid_congr (Function.update_of_ne (hlive k (live_of_mark hK hl)) ..)).trans h
  | @succeed k q =>
    by_cases hk : id = k
    · subst hk
      obtain ⟨info, hinfo, -, -⟩ := paid_eq_true.1 h
      obtain rfl := preimage_unique hB (hB.paid id preimage h) hK
      simp [Payments.paid, hinfo]
    · exact (paid_congr (Function.update_of_ne hk ..)).trans h

theorem live_step (hs : Step p l p' l') (hid : l ≠ .holding id true) (h : p.live id = false) :
    p'.live id = false := by
  cases hs with
  | @pay k payer =>
    have hne : k ≠ id := by
      rintro rfl
      exact hid rfl
    simpa [Payments.live, hne] using h
  | _ => exact h

/-- An entry that is not Failed stays so, unless its task marks it. -/
theorem entry_step (hs : Step p l p' l') (hid : l ≠ .holding id true) (hid' : l ≠ .failing id)
    (h : ∃ info, p.outbound id = some info ∧ info.status ≠ .failed) :
    ∃ info, p'.outbound id = some info ∧ info.status ≠ .failed := by
  obtain ⟨info, hinfo, hst⟩ := h
  cases hs with
  | stay | write | pay => exact ⟨info, hinfo, hst⟩
  | @record k new hnew =>
    by_cases hk : id = k
    · subst hk
      exact ⟨new, Function.update_self .., by simp [hnew]⟩
    · exact ⟨info, (Function.update_of_ne hk ..).trans hinfo, hst⟩
  | @mark _ k hl =>
    have hk : id ≠ k := by
      rintro rfl
      exact hl.elim hid hid'
    exact ⟨info, (Function.update_of_ne hk ..).trans hinfo, hst⟩
  | @succeed k q =>
    by_cases hk : id = k
    · subst hk
      exact ⟨_, (Function.update_self ..).trans (by rw [hinfo]; rfl), by simp⟩
    · exact ⟨info, (Function.update_of_ne hk ..).trans hinfo, hst⟩

theorem knows_step (hs : Step p l p' l') (hK : Knows p l) (hU : Unused p l l') : Knows p' l' := by
  cases hs with
  | stay | write => exact hK
  | @record k info hst => exact ⟨hU k rfl rfl, info, Function.update_self .., by simp [hst]⟩
  | _ => trivial

/-- What another task knows. -/
theorem knows_other (hs : Step p l p' l') (hap : Apart l n) (hN : Knows p n) : Knows p' n := by
  cases n with
  | idle => trivial
  | holding k =>
    have hid : l ≠ .holding k true := fun hl => by
      rw [hl] at hap
      exact hap rfl
    have hid' : l ≠ .failing k := fun hl => by
      rw [hl] at hap
      exact hap rfl
    exact ⟨live_step hs hid hN.1, entry_step hs hid hid' hN.2⟩
  | failing k =>
    have hid : l ≠ .holding k true := fun hl => by
      rw [hl] at hap
      exact hap rfl
    exact live_step hs hid hN
  | sent k q => exact sent_mono hs hN

/-- A payment in flight was so before, or has just been handed to LDK. -/
theorem inFlight_step (hs : Step p l p' l') (h : p'.inFlight id = true) : p.inFlight id = true ∨
    l = .holding id true ∧ p'.outbound = p.outbound ∧ p'.recent = id :: p.recent := by
  cases hs with
  | @pay k payer =>
    obtain ⟨a, ha, hid, hout⟩ := inFlight_eq_true.1 h
    rcases List.mem_append.1 ha with ha | ha
    · exact Or.inl (inFlight_eq_true.2 ⟨a, ha, hid, hout⟩)
    · obtain rfl := List.mem_singleton.1 ha
      obtain rfl : k = id := hid
      exact Or.inr ⟨rfl, rfl, rfl⟩
  | _ => exact Or.inl h

/-- A payment that is not live has only failed attempts. -/
theorem failed_of_not_live (h : p.live id = false) {i : ℕ} {a : Attempt}
    (hi : p.attempts[i]? = some a) (hid : a.paymentHash = id) : a.outcome = some .failed := by
  by_contra hout
  have hlive := live_eq_true.2 ⟨a, List.mem_of_getElem? hi, hid, hout⟩
  rw [h] at hlive
  cases hlive

/-- A task hands a payment to LDK only when its earlier attempts have failed. -/
theorem single_step (hs : Step p l p' l') (hB : Books p) (hK : Knows p l) {i j : ℕ} {a b : Attempt}
    (hi : p'.attempts[i]? = some a) (hj : p'.attempts[j]? = some b)
    (hhash : a.paymentHash = b.paymentHash) (ha : a.outcome ≠ some .failed)
    (hb : b.outcome ≠ some .failed) : i = j := by
  cases hs with
  | @pay k payer =>
    rw [List.getElem?_append] at hi hj
    split_ifs at hi hj with hlt hlt' hlt'
    · exact hB.single i j a b hi hj hhash ha hb
    · rw [List.getElem?_singleton] at hj
      split_ifs at hj
      obtain rfl := Option.some.inj hj
      exact absurd (failed_of_not_live hK.1 hi hhash) ha
    · rw [List.getElem?_singleton] at hi
      split_ifs at hi
      obtain rfl := Option.some.inj hi
      exact absurd (failed_of_not_live hK.1 hj hhash.symm) hb
    · rw [List.getElem?_singleton] at hi hj
      split_ifs at hi hj
      omega
  | _ => exact hB.single i j a b hi hj hhash ha hb

/-- An entry is marked paid only for a payment that was sent. -/
theorem paid_sent_step (hs : Step p l p' l') (hB : Books p) (hK : Knows p l) {q : String}
    (h : p'.paid id q = true) : Sent p' id q := by
  cases hs with
  | stay | write => exact hB.paid id q h
  | pay => exact sent_mono .pay (hB.paid id q h)
  | @record k info hst =>
    by_cases hk : id = k
    · subst hk
      obtain ⟨new, hnew, hsucc, -⟩ := paid_eq_true.1 h
      obtain rfl := Option.some.inj (Op.onOutbound_insert.symm.trans hnew)
      rw [hst] at hsucc
      cases hsucc
    · exact hB.paid id q ((paid_congr (Function.update_of_ne hk ..)).symm.trans h)
  | @mark _ k =>
    by_cases hk : id = k
    · subst hk
      obtain ⟨new, hnew, hsucc, -⟩ := paid_eq_true.1 h
      obtain ⟨old, -, rfl⟩ := Option.map_eq_some_iff.1 (Op.onOutbound_fail.symm.trans hnew)
      cases hsucc
    · exact hB.paid id q ((paid_congr (Function.update_of_ne hk ..)).symm.trans h)
  | @succeed k q' =>
    by_cases hk : id = k
    · subst hk
      obtain ⟨new, hnew, -, hpre⟩ := paid_eq_true.1 h
      obtain ⟨old, -, rfl⟩ := Option.map_eq_some_iff.1 (Op.onOutbound_succeed.symm.trans hnew)
      obtain rfl := Option.some.inj hpre
      exact hK
    · exact hB.paid id q ((paid_congr (Function.update_of_ne hk ..)).symm.trans h)

theorem books_step (hs : Step p l p' l') (hB : Books p) (hK : Knows p l) : Books p' := by
  refine ⟨fun i j a b hi hj hhash ha hb => single_step hs hB hK hi hj hhash ha hb,
    fun id q h => paid_sent_step hs hB hK h, ?_, ?_⟩
  · intro id h
    rcases inFlight_step hs h with hold | ⟨rfl, hout, -⟩
    · have hlive := live_of_inFlight hold
      have hne : l = .holding id true ∨ l = .failing id → False := by
        intro hl
        rw [live_of_mark hK hl] at hlive
        cases hlive
      exact entry_step hs (fun hl => hne (Or.inl hl)) (fun hl => hne (Or.inr hl)) (hB.entry id hold)
    · rw [hout]
      exact hK.2
  · intro id h
    rcases inFlight_step hs h with hold | ⟨-, -, hrecent⟩
    · have hmem := hB.listed id hold
      cases hs with
      | pay => exact List.mem_cons_of_mem _ hmem
      | _ => exact hmem
    · rw [hrecent]
      exact List.mem_cons_self

/-! ## What happens around the tasks -/

/-- A payment in flight ends. -/
def settled (p : Payments) (i : ℕ) (outcome : PayOutcome) : Payments :=
  { p with attempts := p.attempts.modify i fun a => { a with outcome := some outcome } }

theorem payments_of_reaction {x : Durable} {e : Env} {w : World} {ch : Change Call}
    (h : Reaction x.world e w ch) (he : e ≠ .crash) :
    ({ x with world := w } : Durable).payments = x.payments ∨ ∃ i a outcome,
      x.world.attempts[i]? = some a ∧ a.outcome = none ∧
      ({ x with world := w } : Durable).payments = settled x.payments i outcome := by
  cases h with
  | crash => exact absurd rfl he
  | @settle i a outcome hi hout => exact Or.inr ⟨i, a, outcome, hi, hout, rfl⟩
  | _ => exact Or.inl rfl

theorem outbound_of_reaction {w w' : World} {e : Env} {ch : Change Call} (h : Reaction w e w' ch)
    (he : e ≠ .crash) : w'.outbound = w.outbound := by
  cases h with
  | crash => exact absurd rfl he
  | _ => rfl

variable {i : ℕ} {outcome : PayOutcome}

/-- A payment after the end of the payment at `i`. -/
theorem settled_cases {j : ℕ} {b : Attempt} (h : (settled p i outcome).attempts[j]? = some b) :
    ∃ a, p.attempts[j]? = some a ∧ a.paymentHash = b.paymentHash ∧
      (b = a ∨ j = i ∧ b.outcome = some outcome) := by
  simp only [settled, List.getElem?_modify] at h
  obtain ⟨a, ha, rfl⟩ := Option.map_eq_some_iff.1 h
  by_cases hij : i = j
  · exact ⟨a, ha, by simp [hij], Or.inr ⟨hij.symm, by simp [hij]⟩⟩
  · exact ⟨a, ha, by simp [hij], Or.inl (by simp [hij])⟩

theorem live_settled (hi : p.attempts[i]? = some a) (hout : a.outcome = none)
    (h : p.live id = false) : (settled p i outcome).live id = false := by
  by_contra hlive
  rw [Bool.not_eq_false] at hlive
  obtain ⟨b, hb, hid, hfail⟩ := live_eq_true.1 hlive
  obtain ⟨j, hj⟩ := List.getElem?_of_mem hb
  obtain ⟨a', ha', hhash, hcase⟩ := settled_cases hj
  have hne : a'.outcome ≠ some .failed := by
    rcases hcase with rfl | ⟨rfl, -⟩
    · exact hfail
    · rw [hi] at ha'
      obtain rfl := Option.some.inj ha'
      simp [hout]
  rw [live_eq_true.2 ⟨a', List.mem_of_getElem? ha', hhash.trans hid, hne⟩] at h
  cases h

theorem inFlight_of_settled (h : (settled p i outcome).inFlight id = true) : p.inFlight id = true := by
  obtain ⟨b, hb, hid, hnone⟩ := inFlight_eq_true.1 h
  obtain ⟨j, hj⟩ := List.getElem?_of_mem hb
  obtain ⟨a, ha, hhash, rfl | ⟨-, hsome⟩⟩ := settled_cases hj
  · exact inFlight_eq_true.2 ⟨b, List.mem_of_getElem? ha, hid, hnone⟩
  · rw [hnone] at hsome
    cases hsome

theorem sent_settled (hi : p.attempts[i]? = some a) (hout : a.outcome = none)
    (h : Sent p id preimage) : Sent (settled p i outcome) id preimage := by
  obtain ⟨b, hb, hid, hsent⟩ := h
  obtain ⟨j, hj⟩ := List.getElem?_of_mem hb
  have hne : i ≠ j := by
    rintro rfl
    rw [hi] at hj
    obtain rfl := Option.some.inj hj
    rw [hout] at hsent
    cases hsent
  refine ⟨b, List.mem_of_getElem? (i := j) ?_, hid, hsent⟩
  rw [settled, List.getElem?_modify, hj]
  simp [hne]

theorem knows_settled (hi : p.attempts[i]? = some a) (hout : a.outcome = none) (hN : Knows p n) :
    Knows (settled p i outcome) n := by
  cases n with
  | idle => trivial
  | holding k => exact ⟨live_settled hi hout hN.1, hN.2⟩
  | failing k => exact live_settled hi hout hN
  | sent k q => exact sent_settled hi hout hN

theorem books_settled (hi : p.attempts[i]? = some a) (hout : a.outcome = none) (hB : Books p) :
    Books (settled p i outcome) where
  single j k b b' hj hk hhash hb hb' := by
    obtain ⟨c, hc, hhash₁, hcase⟩ := settled_cases hj
    obtain ⟨c', hc', hhash₂, hcase'⟩ := settled_cases hk
    have hlive : ∀ {m : ℕ} {d d' : Attempt}, p.attempts[m]? = some d' →
        d = d' ∨ m = i ∧ d.outcome = some outcome → d.outcome ≠ some .failed →
        d'.outcome ≠ some .failed := by
      rintro m d d' hd' (rfl | ⟨rfl, -⟩) hd
      · exact hd
      · rw [hi] at hd'
        obtain rfl := Option.some.inj hd'
        simp [hout]
    exact hB.single j k c c' hc hc' (by rw [hhash₁, hhash, hhash₂]) (hlive hc hcase hb)
      (hlive hc' hcase' hb')
  paid k q h := sent_settled hi hout (hB.paid k q h)
  entry k h := hB.entry k (inFlight_of_settled h)
  listed k h := hB.listed k (inFlight_of_settled h)

theorem after_reaction {x : Durable} {e : Env} {w : World} {ch : Change Call}
    (h : Reaction x.world e w ch) (he : e ≠ .crash) (hB : Books x.payments) :
    (∀ id q, Sent x.payments id q → Sent ({ x with world := w } : Durable).payments id q) ∧
      (∀ id, ({ x with world := w } : Durable).payments.inFlight id = true →
        x.payments.inFlight id = true) ∧ Books ({ x with world := w } : Durable).payments := by
  rcases payments_of_reaction h he with heq | ⟨i, a, outcome, hi, hnone, heq⟩ <;> rw [heq]
  · exact ⟨fun _ _ hs => hs, fun _ hin => hin, hB⟩
  · exact ⟨fun _ _ => sent_settled hi hnone, fun _ => inFlight_of_settled, books_settled hi hnone hB⟩

/-- LDK takes a payment that is not in flight off its list. -/
theorem books_forget (hB : Books p) (h : p.inFlight id = false) :
    Books { p with recent := p.recent.filter (· ≠ id) } where
  single := hB.single
  paid := hB.paid
  entry := hB.entry
  listed k hk := by
    have hne : k ≠ id := by
      rintro rfl
      rw [show p.inFlight k = true from hk] at h
      cases h
    exact List.mem_filter.2 ⟨hB.listed k hk, by simpa using hne⟩

end

/-! ## The file -/

/-- From this version of the store on, the payment has an entry that is not Failed. -/
def Firm (x : Durable) (version : ℕ) (id : String) : Prop :=
  ∀ y, x.Held y → version ≤ y.1 → ∃ info, y.2 id = some info ∧ info.status ≠ .failed

/-- What holds of the versions of the store: their successes are of payments that LDK sent, and payments
in flight have entries that are not Failed in the file and in whatever is still to replace it. -/
structure Filed (x : Durable) : Prop where
  le : ∀ y, x.Held y → y.1 ≤ x.version
  paid : ∀ y, x.Held y → ∀ id preimage, (x.paymentsWith y.2).paid id preimage = true →
    Sent x.payments id preimage
  firm : ∀ id, x.payments.inFlight id = true → Firm x x.file.1 id

/-- What a task knows of the entry of the payment that it sends. -/
def Files (x : Durable) (tid : ℕ) : Stage → Prop
  | .holding id false => ∃ y, x.encoded tid = some y ∧ Firm x y.1 id
  | .holding id true => Firm x x.file.1 id
  | _ => True

section

variable {tid : ℕ} {c : Call} {l l' : Stage} {o : Op} {r : o.Resp} {x x' : Durable}
  {sp : Option Call} {id preimage : String} {v : ℕ}

theorem Firm.mono {v' : ℕ} (h : Firm x v id) (hv : v ≤ v') : Firm x v' id :=
  fun y hy hle => h y hy (Nat.le_trans hv hle)

/-- The entry stays firm while it is not marked in memory. -/
theorem Firm.after (h : Firm x v id) (he : Durable.Effect tid c o r x x' sp)
    (hentry : ∃ info, x'.world.outbound id = some info ∧ info.status ≠ .failed) : Firm x' v id := by
  intro y hy hv
  rcases Durable.held_after he hy with hold | ⟨rfl, -⟩
  · exact h y hold hv
  · exact hentry

/-- What a task knows of its entry stays true while its payment is as it was. -/
theorem files_after (he : Durable.Effect tid c o r x x' sp) {i : ℕ}
    (henc : x'.encoded i = x.encoded i) (hK : Knows x'.payments l) (h : Files x i l) : Files x' i l := by
  cases l with
  | holding id filed =>
    cases filed with
    | false =>
      obtain ⟨y, hy, hfirm⟩ := h
      exact ⟨y, henc.trans hy, hfirm.after he hK.2⟩
    | true => exact (Firm.after h he hK.2).mono (Durable.file_le he)
  | _ => trivial

theorem files_move (hF : Filed x) (he : Durable.Effect tid c o r x x' sp) (hm : Move l o r l')
    (hK : Knows x'.payments l') (h : Files x tid l) : Files x' tid l' := by
  cases hm with
  | quiet ho =>
    have henc : x'.encoded tid = x.encoded tid := by
      rw [he.after]
      exact congrFun (if_neg (by simp [changesOutbound_of_quiet ho])) tid
    exact files_after he henc hK h
  | refuse =>
    have henc : x'.encoded tid = x.encoded tid := by rw [he.after]; rfl
    exact files_after he henc hK h
  | record =>
    refine ⟨(x.version + 1, x'.world.outbound), ?_, fun y hy hv => ?_⟩
    · rw [he.after]
      exact Function.update_self ..
    · rcases Durable.held_after he hy with hold | ⟨rfl, -⟩
      · exact absurd (hF.le y hold) (Nat.not_le.2 hv)
      · exact hK.2
  | write =>
    obtain ⟨y, hy, hfirm⟩ := h
    refine (hfirm.after he hK.2).mono ?_
    rw [he.after]
    exact Durable.le_written x tid (Or.inr hy)
  | _ => trivial

theorem Filed.move (hF : Filed x) (he : Durable.Effect tid c o r x x' sp) (hm : Move l o r l')
    (hB : Books x'.payments) (h : Files x tid l) : Filed x' where
  le y hy := by
    rcases Durable.held_after he hy with hold | ⟨rfl, hv⟩
    · exact Nat.le_trans (hF.le y hold) (Durable.version_le he)
    · exact Nat.le_of_eq hv.symm
  paid y hy id q hq := by
    rcases Durable.held_after he hy with hold | ⟨rfl, -⟩
    · exact sent_mono (step_of_move he hm) (hF.paid y hold id q hq)
    · exact hB.paid id q hq
  firm id hid := by
    have hfirm : Firm x x.file.1 id := by
      rcases inFlight_step (step_of_move he hm) hid with hold | ⟨rfl, -⟩
      · exact hF.firm id hold
      · exact h
    exact (hfirm.after he (hB.entry id hid)).mono (Durable.file_le he)

/-- What the file has is left alone by the restart where it is a success, or in LDK's list. -/
theorem paid_restarted (hB : Books x.payments) (hfiled : x.successesFiled = true)
    (h : x.payments.paid id preimage = true) : x.restarted.payments.paid id preimage = true := by
  obtain ⟨a, ha, rfl, hout⟩ := hB.paid id preimage h
  have hfile := List.all_eq_true.1 hfiled a ha
  simp only [hout, h, Bool.not_true, Bool.false_or] at hfile
  obtain ⟨info, hinfo, hst, hpre⟩ := paid_eq_true.1 hfile
  exact paid_eq_true.2 ⟨info, Durable.reconcile_of_ne_pending hinfo (Or.inl (by simp [hst])), hst, hpre⟩

/-- Successes are not made by the restart. -/
theorem paid_of_reconcile (h : (x.paymentsWith (Durable.reconcile x.recent x.file.2)).paid id preimage =
    true) : (x.paymentsWith x.file.2).paid id preimage = true := by
  obtain ⟨info, hinfo, hst, hpre⟩ := paid_eq_true.1 h
  obtain ⟨old, hold, heq⟩ := Option.map_eq_some_iff.1 hinfo
  split_ifs at heq
  · rw [← heq] at hst
    cases hst
  · obtain rfl := heq
    exact paid_eq_true.2 ⟨old, hold, hst, hpre⟩

/-- A payment in flight is in LDK's list, so its entry is left alone. -/
theorem entry_restarted (hF : Filed x) (hB : Books x.payments) (h : x.payments.inFlight id = true) :
    ∃ info, Durable.reconcile x.recent x.file.2 id = some info ∧ info.status ≠ .failed := by
  obtain ⟨info, hinfo, hst⟩ := hF.firm id h x.file (Or.inl rfl) (Nat.le_refl _)
  have hmem : x.recent.contains id = true := List.contains_iff_mem.2 (hB.listed id h)
  exact ⟨info, Durable.reconcile_of_ne_pending hinfo (Or.inr hmem), hst⟩

theorem books_restarted (hF : Filed x) (hB : Books x.payments) : Books x.restarted.payments where
  single := hB.single
  paid id q h := hF.paid x.file (Or.inl rfl) id q (paid_of_reconcile h)
  entry _ h := entry_restarted hF hB h
  listed := hB.listed

theorem filed_restarted (hF : Filed x) (hB : Books x.payments) : Filed x.restarted where
  le y hy := by
    rw [Durable.held_restarted hy]
    exact Nat.le_refl _
  paid y hy id q hq := by
    rw [Durable.held_restarted hy] at hq
    exact hF.paid x.file (Or.inl rfl) id q (paid_of_reconcile hq)
  firm _ h y hy _ := by
    rw [Durable.held_restarted hy]
    exact entry_restarted hF hB h

end

/-! ## All runs -/

/-- What a task knows, and where the log and its call show it. -/
structure Owned (x : Durable) (tid : ℕ) (c : Call) (l : Stage) : Prop where
  knows : Knows x.payments l
  files : Files x tid l
  recorded : ∀ id filed, l = .holding id filed → ∃ e ∈ x.world.log, e.tid = tid ∧ e.recorded? = some id
  reports : ∀ id, l = .failing id → c.reports id = true

/-- The protocol, what the tasks know and what the books say. -/
def discipline : Discipline Op Op.Resp Durable Call Stage where
  start := start
  Move _ := Move
  Final _ l := l = .idle
  Shared x := Filed x ∧ Books x.payments
  Owned := Owned
  Apart _ l _ l' := Apart l l'

section

variable {cfg : Config} {now : ℤ} {s : State Op Op.Resp Durable Call} {tid : ℕ} {c : Call}
  {l l' n : Stage} {o : Op} {r : o.Resp} {a : Answers} {x' : Durable} {sp : Option Call}

theorem owned_idle {x : Durable} : Owned x tid c .idle :=
  ⟨trivial, trivial, nofun, nofun⟩

theorem owned_start {x : Durable} (h : ∀ event, c ≠ .handleLdkEvents event) :
    Owned x tid c (start c) := by
  rw [start_eq_idle h]
  exact owned_idle

/-- A task that is not idle has not ended. -/
theorem not_ended {t : Task Op Op.Resp Call} (h : discipline.Keeps t l) (hl : l ≠ .idle) :
    t.rest.ended = false := by
  rcases t with ⟨c, u | ⟨o, k⟩⟩
  · exact absurd h hl
  · rfl

theorem mem_senders (hlt : tid < s.next) {t : Task Op Op.Resp Call} (ht : s.tasks tid = some t)
    (hend : t.rest.ended = false) {id : String}
    (hrec : ∃ e ∈ s.world.world.log, e.tid = tid ∧ e.recorded? = some id) : tid ∈ senders s id := by
  obtain ⟨e, he, htid, hid⟩ := hrec
  refine List.mem_filter.2 ⟨List.mem_range.2 hlt, ?_⟩
  simp only [ht, Option.any_some, hend, Bool.not_false, Bool.true_and, List.any_eq_true,
    Bool.and_eq_true, decide_eq_true_eq]
  exact ⟨e, he, htid, hid⟩

/-- What the condition says of an operation that stores an entry. -/
theorem ok_of_record (hok : singly s (.task tid a) = true)
    (htask : ∃ k, s.tasks tid = some ⟨c, .op o k⟩) (hm : Move l o r l') (hl : l = .idle)
    {id : String} (hl' : l' = .holding id false) :
    s.world.payments.live id = false ∧ (∀ i ∈ senders s id, i = tid) ∧
      s.running (Call.reports id) = false := by
  obtain ⟨k, ht⟩ := htask
  subst hl hl'
  cases hm with
  | record =>
    simp only [singly, ht, Bool.and_eq_true, Bool.not_eq_true', List.all_eq_true,
      decide_eq_true_eq] at hok
    exact ⟨hok.1.1, hok.1.2, hok.2⟩

theorem unused_of_ok (hok : singly s (.task tid a) = true)
    (htask : ∃ k, s.tasks tid = some ⟨c, .op o k⟩) (hm : Move l o r l') :
    Unused s.world.payments l l' := fun _ hl hl' => (ok_of_record hok htask hm hl hl').1

theorem owned_move (hF : Filed s.world) (he : Durable.Effect tid c o r s.world x' sp)
    (hm : Move l o r l') (hO : Owned s.world tid c l) (hU : Unused s.world.payments l l') :
    Owned x' tid c l' where
  knows := knows_step (step_of_move he hm) hO.knows hU
  files := files_move hF he hm (knows_step (step_of_move he hm) hO.knows hU) hO.files
  recorded id filed hl := by
    subst hl
    rw [he.world.log]
    cases hm with
    | record => exact ⟨_, List.mem_cons_self, rfl, rfl⟩
    | quiet | write | refuse =>
      obtain ⟨e, hmem, hrest⟩ := hO.recorded _ _ rfl
      exact ⟨e, List.mem_cons_of_mem _ hmem, hrest⟩
  reports id hl := by
    subst hl
    cases hm with
    | quiet => exact hO.reports id rfl

theorem owned_other (he : Durable.Effect tid c o r s.world x' sp) (hm : Move l o r l')
    (hap : Apart l n) {i : ℕ} (hi : i ≠ tid) {c' : Call} (hN : Owned s.world i c' n) :
    Owned x' i c' n where
  knows := knows_other (step_of_move he hm) hap hN.knows
  files := files_after he (Durable.encoded_other he hi) (knows_other (step_of_move he hm) hap hN.knows)
    hN.files
  recorded id filed hl := by
    obtain ⟨e, hmem, hrest⟩ := hN.recorded id filed hl
    rw [he.world.log]
    exact ⟨e, List.mem_cons_of_mem _ hmem, hrest⟩
  reports := hN.reports

/-- A task that stores an entry is apart from all others by the condition. -/
theorem apart_move (hs : s.Fresh) (hok : singly s (.task tid a) = true)
    (htask : ∃ k, s.tasks tid = some ⟨c, .op o k⟩) (hm : Move l o r l') {i : ℕ} (hi : i ≠ tid)
    {t : Task Op Op.Resp Call} (ht : s.tasks i = some t) (hkeep : discipline.Keeps t n)
    (hN : Owned s.world i t.call n) (hap : Apart l n) : Apart l' n := by
  cases hm with
  | quiet | refuse => exact hap
  | write => cases n <;> exact hap
  | pay | giveUp | report | succeed => trivial
  | @record id info hst =>
    obtain ⟨-, hsenders, hrunning⟩ := ok_of_record hok htask (.record hst) rfl rfl
    cases n with
    | idle | sent => trivial
    | holding k =>
      rintro rfl
      exact hi (hsenders i (mem_senders (hs.lt_next ht) ht (not_ended hkeep nofun)
        (hN.recorded _ _ rfl)))
    | failing k =>
      rintro rfl
      rw [State.running_of_task (hs.lt_next ht) ht (hN.reports _ rfl) (not_ended hkeep nofun)]
        at hrunning
      cases hrunning

theorem spawns_idle (hm : Move l o r l') {c' : Call} (hsp : some c' = o.spawns) :
    start c' = .idle := by
  cases hm with
  | quiet ho =>
    cases o with
    | spawn call =>
      obtain rfl := Option.some.inj hsp
      cases c' with
      | handleLdkEvents => cases ho
      | _ => rfl
    | _ => cases hsp
  | _ => cases hsp

/-- The start of a task by the environment. -/
theorem owned_spawn {e : Env} {w : World} (hr : Reaction s.world.world e w (.spawn c))
    (hok : singly s (.env (.env e)) = true) {i : ℕ} :
    Owned { s.world with world := w } i c (start c) := by
  cases hr with
  | request hserving hcall => exact owned_start (by rintro event rfl; cases hcall)
  | @deliver event hd =>
    cases event with
    | paymentClaimable | paymentClaimed => exact owned_idle
    | paymentFailed id h =>
      simp only [singly, Bool.and_eq_true, Bool.not_eq_true'] at hok
      exact ⟨hok.1, trivial, nofun, fun k hk => by simpa [Call.reports] using Stage.failing.inj hk⟩
    | paymentSent id h preimage =>
      cases id with
      | none => exact owned_idle
      | some id =>
        simp only [World.canDeliver, Option.all_some, Bool.and_eq_true, decide_eq_true_eq,
          List.any_eq_true] at hd
        obtain ⟨rfl, b, hb, hhash, hout⟩ := hd
        exact ⟨⟨b, hb, hhash, hout⟩, trivial, nofun, nofun⟩

/-- A PaymentFailed event is handed over while nobody sends the payment. -/
theorem apart_spawn (hs : s.Fresh) {e : Env} {w : World}
    (hr : Reaction s.world.world e w (.spawn c)) (hok : singly s (.env (.env e)) = true)
    {t : Task Op Op.Resp Call} (ht : s.tasks tid = some t) (hkeep : discipline.Keeps t n)
    (hN : Owned s.world tid t.call n) : Apart n (start c) := by
  have hidle : start c = .idle → Apart n (start c) := by
    intro h
    rw [h]
    exact apart_idle n
  cases hr with
  | request hserving hcall => exact hidle (start_eq_idle (by rintro event rfl; cases hcall))
  | @deliver event hd =>
    cases event with
    | paymentClaimable | paymentClaimed => exact hidle rfl
    | paymentSent id h preimage => cases id <;> cases n <;> trivial
    | paymentFailed id h =>
      simp only [singly, Bool.and_eq_true, List.isEmpty_iff] at hok
      cases n with
      | holding k =>
        rintro rfl
        have hmem := mem_senders (hs.lt_next ht) ht (not_ended hkeep nofun) (hN.recorded _ _ rfl)
        rw [hok.2] at hmem
        exact List.not_mem_nil hmem
      | _ => trivial

theorem sound : discipline.Sound (relayWithFile cfg) (fun s a => singly s a = true)
    (Durable.fresh cfg now) where
  body := body_follows
  symm := Apart.symm
  init := by
    refine ⟨⟨⟨fun y hy => ?_, fun y hy id q h => ?_, fun id h => ?_⟩, ?_⟩, owned_idle⟩
    · rw [Durable.held_fresh hy]
      exact Nat.le_refl _
    · rw [Durable.held_fresh hy] at h
      cases h
    · simp [Payments.inFlight, Durable.payments_fresh] at h
    constructor
    · exact fun i _ _ _ hi => by simp [Durable.payments_fresh] at hi
    · exact fun id q h => by simp [Payments.paid, Durable.payments_fresh] at h
    · exact fun id h => by simp [Payments.inFlight, Durable.payments_fresh] at h
    · exact fun id h => by simp [Payments.inFlight, Durable.payments_fresh] at h
  move turn hp hm := by
    have he := durable_effect hp
    have hU := unused_of_ok turn.ok turn.task hm
    obtain ⟨hF, hB⟩ := turn.shared
    have hB' := books_step (step_of_move he hm) hB turn.owned.knows
    exact ⟨⟨hF.move he hm hB' turn.owned.files, hB'⟩, owned_move hF he hm turn.owned hU⟩
  others turn hp hm hne ht hkeep howned hap :=
    ⟨owned_other (durable_effect hp) hm hap hne howned,
      apart_move turn.reach.fresh turn.ok turn.task hm hne ht hkeep howned hap⟩
  spawned turn hp hm := by
    have hidle := spawns_idle hm (durable_effect hp).world.spawned
    simp only [discipline, hidle]
    exact ⟨owned_idle, apart_idle _, fun _ _ _ _ _ => apart_idle _⟩
  abort turn hp := by
    obtain ⟨rfl, -⟩ := durable_abort hp
    obtain ⟨hF, hB⟩ := turn.shared
    exact ⟨⟨filed_restarted hF hB, books_restarted hF hB⟩, owned_idle⟩
  react next hr := by
    obtain ⟨hF, hB⟩ := next.shared
    rcases durable_react hr with ⟨rfl, rfl, -⟩ | ⟨e, w, rfl, hne, hreact, rfl⟩ | ⟨id, hf, rfl, -⟩
    · exact ⟨filed_restarted hF hB, books_restarted hF hB⟩
    · obtain ⟨hsent, hin, hbooks⟩ := after_reaction hreact hne hB
      exact ⟨⟨hF.le, fun y hy id q h => hsent id q (hF.paid y hy id q h),
        fun id h => hF.firm id (hin id h)⟩, hbooks⟩
    · exact ⟨⟨hF.le, hF.paid, hF.firm⟩, books_forget hB hf⟩
  reactOthers {s e x' ch tid t m} next hr hch _ _ howned := by
    rcases durable_react hr with ⟨-, -, rfl⟩ | ⟨e, w, rfl, hne, hreact, rfl⟩ | ⟨id, hf, rfl, -⟩
    · exact absurd rfl hch
    · refine ⟨?_, howned.files, ?_, howned.reports⟩
      · rcases payments_of_reaction hreact hne with heq | ⟨i, a, outcome, hi, hnone, heq⟩
        · rw [heq]
          exact howned.knows
        · rw [heq]
          exact knows_settled hi hnone howned.knows
      · rw [show w.log = _ from hreact.calm.log]
        exact howned.recorded
    · refine ⟨?_, howned.files, howned.recorded, howned.reports⟩
      have hknows := howned.knows
      cases m <;> exact hknows
  reactSpawn next hr := by
    rcases durable_react hr with ⟨-, -, hc⟩ | ⟨e, w, rfl, hne, hreact, rfl⟩ | ⟨id, -, -, hc⟩
    · cases hc
    · exact ⟨owned_spawn hreact next.ok, fun ht hkeep howned =>
        apart_spawn next.reach.fresh hreact next.ok ht hkeep howned⟩
    · cases hc
  reactRestart _ _ := owned_idle

/-- A success stays over one step. -/
theorem paid_of_step {s' : State Op Op.Resp Durable Call} {act : Action Answers Around}
    (hs : (relayWithFile cfg).Reach (fun s a => singly s a = true) (Durable.fresh cfg now) s)
    (hok : singly s act = true) (hstep : (relayWithFile cfg).step s act = some s') {id preimage : String}
    (h : s.world.payments.paid id preimage = true) : s'.world.payments.paid id preimage = true := by
  obtain ⟨L, hL⟩ := sound.holds hs
  have hB := hL.shared.2
  cases act with
  | task tid a =>
    obtain ⟨c, o, k, ht, rfl⟩ := Runtime.step_task_eq_some hstep
    rcases hp : (relayWithFile cfg).perform tid c o a s.world with ⟨r, x', sp⟩ | x'
    · obtain ⟨l', hm, -⟩ := (hL.keeps ht).move r
      have hpaid := paid_step (step_of_move (durable_effect hp) hm) hB (hL.owned ht).knows
        (unused_of_ok hok ⟨k, ht⟩ hm) h
      cases sp <;> exact hpaid
    · obtain ⟨rfl, msg, rfl⟩ := durable_abort hp
      simp only [singly, ht] at hok
      exact paid_restarted hB hok h
  | env e =>
    obtain ⟨x', ch, hr, rfl⟩ := Runtime.step_env_eq_some hstep
    have hworld : ((relayWithFile cfg).change s x' ch).world = x' := by
      cases ch <;> rfl
    rw [hworld]
    rcases durable_react hr with ⟨rfl, rfl, -⟩ | ⟨e, w, rfl, hne, hreact, rfl⟩ | ⟨id, hf, rfl, -⟩
    · exact paid_restarted hB hok h
    · rcases payments_of_reaction hreact hne with heq | ⟨i, a, outcome, -, -, heq⟩ <;>
        (rw [heq]; exact h)
    · exact h

/-- A success stays over a run. -/
theorem paid_of_run (hs : (relayWithFile cfg).Reach (fun s a => singly s a = true) (Durable.fresh cfg now) s)
    {as : List (Action Answers Around)} {s' : State Op Op.Resp Durable Call}
    (hrun : (relayWithFile cfg).run singly s as = some s') {id preimage : String}
    (h : s.world.payments.paid id preimage = true) : s'.world.payments.paid id preimage = true := by
  induction as generalizing s with
  | nil =>
    obtain rfl := Option.some.inj hrun
    exact h
  | cons act as ih =>
    simp only [Runtime.run] at hrun
    split_ifs at hrun with hok
    obtain ⟨s₁, hstep, hrun⟩ := Option.bind_eq_some_iff.1 hrun
    exact ih (.step hs hok hstep) hrun (paid_of_step hs hok hstep h)

end

end Outbound

/-- In every run of the relay, restarts included, all steps of which meet `singly`: an entry of the
outbound store that is Succeeded with a preimage stays so, however the run goes on, and an entry whose
payment is in flight in LDK is not Failed. -/
theorem outbound_success_durable {cfg : Config} {now : ℤ} {s : State Op Op.Resp Durable Call}
    (hs : (relayWithFile cfg).Reach (fun s a => singly s a = true) (Durable.fresh cfg now) s) :
    (∀ id preimage, s.world.payments.paid id preimage = true → ∀ as s',
      (relayWithFile cfg).run singly s as = some s' → s'.world.payments.paid id preimage = true) ∧
    ∀ id, s.world.payments.inFlight id = true → s.world.payments.failed id = false := by
  refine ⟨fun id preimage h as s' hrun => Outbound.paid_of_run hs hrun h, fun id h => ?_⟩
  obtain ⟨L, hL⟩ := Outbound.sound.holds hs
  obtain ⟨info, hinfo, hst⟩ := hL.shared.2.entry id h
  simp [Payments.failed, hinfo, hst]

/-! ## On the devnet -/

/-- A step of the relay with its file. -/
abbrev DurableAct := Action Answers Around

/-- LDK's answers to an invoice that it knows. -/
def devnetDuplicate : Answers where
  operator := Devnet.ok.operator
  ldk c :=
    match c with
    | .payForBolt11Invoice _ _ => .error "DuplicatePayment"
    | c => Devnet.ok.ldk c

/-- The command to send the invoice, as task `tid`. -/
def devnetSend (tid : ℕ) : List DurableAct :=
  .env (.env (.request (.sendpayment Devnet.shortInvoice.text none))) ::
    List.replicate 4 (.task tid Devnet.ok)

/-- The same command once more: LDK refuses the invoice. -/
def devnetResend (tid : ℕ) : List DurableAct :=
  .env (.env (.request (.sendpayment Devnet.shortInvoice.text none))) ::
    List.replicate 6 (.task tid devnetDuplicate)

/-- The payment is sent, and LDK reports it to task `tid`. -/
def devnetSuccess (tid : ℕ) : List DurableAct :=
  .env (.env (.settle 0 (.sent "preimage"))) ::
    .env (.env (.deliver
      (.paymentSent (some Devnet.shortInvoice.paymentHash) Devnet.shortInvoice.paymentHash "preimage"))) ::
    List.replicate 3 (.task tid Devnet.ok)

/-- The first start, up to the point where the CLI accepts commands. -/
def devnetBoot : List DurableAct := List.replicate 7 (.task 0 Devnet.ok)

/-- The relay before its first start. -/
def devnetFresh : Durable := Durable.fresh Devnet.shortConfig Devnet.startTime

/-- What is seen after a sequence of steps. -/
def devnetSees (ok : State Op Op.Resp Durable Call → DurableAct → Bool)
    (p : State Op Op.Resp Durable Call → Bool) (as : List DurableAct) : Bool :=
  ((relayWithFile Devnet.shortConfig).run ok ((relayWithFile Devnet.shortConfig).initial devnetFresh) as).any p

/-- The invoice is paid, as the store has it. -/
def devnetPaidIn (s : State Op Op.Resp Durable Call) : Bool :=
  s.world.payments.paid Devnet.shortInvoice.paymentHash "preimage"

set_option maxRecDepth 100000 in
theorem outbound_success_durable_devnet :
    ∃ s s', (relayWithFile Devnet.shortConfig).Reach (fun s a => singly s a = true) devnetFresh s ∧
      (relayWithFile Devnet.shortConfig).run singly s [.env (.env .crash)] = some s' ∧ devnetPaidIn s = true ∧
      devnetPaidIn s' = true := by
  have hrun : devnetSees singly (fun s => devnetPaidIn s &&
      ((relayWithFile Devnet.shortConfig).run singly s [.env (.env .crash)]).isSome)
      (devnetBoot ++ devnetSend 3 ++ devnetSuccess 4) = true := by
    decide +kernel
  obtain ⟨s, hs, hp⟩ := Runtime.exists_reach_of_run hrun
  rw [Bool.and_eq_true] at hp
  obtain ⟨s', hs'⟩ := Option.isSome_iff_exists.1 hp.2
  exact ⟨s, s', hs, hs', hp.1, (outbound_success_durable hs).1 _ _ hp.1 _ s' hs'⟩

set_option maxRecDepth 100000 in
/-- The CLI sends an invoice again, and LDK refuses it as a duplicate. After the success of the payment
its entry loses the success; before, its entry is marked Failed while the payment is in flight. -/
theorem devnet_success_lost :
    (∃ s s', (relayWithFile Devnet.shortConfig).Reach (fun _ _ => True) devnetFresh s ∧
      (relayWithFile Devnet.shortConfig).run (fun _ _ => true) s (devnetResend 5) = some s' ∧
      devnetPaidIn s = true ∧ devnetPaidIn s' = false) ∧
    ∃ s, (relayWithFile Devnet.shortConfig).Reach (fun _ _ => True) devnetFresh s ∧
      s.world.payments.inFlight Devnet.shortInvoice.paymentHash = true ∧
      s.world.payments.failed Devnet.shortInvoice.paymentHash = true := by
  constructor
  · have hrun : devnetSees (fun _ _ => true) (fun s => devnetPaidIn s &&
        ((relayWithFile Devnet.shortConfig).run (fun _ _ => true) s (devnetResend 5)).any
          fun s' => !devnetPaidIn s') (devnetBoot ++ devnetSend 3 ++ devnetSuccess 4) = true := by
      decide +kernel
    obtain ⟨s, hs, hp⟩ := Runtime.exists_reach_of_run hrun
    rw [Bool.and_eq_true] at hp
    obtain ⟨s', hs', hlost⟩ := (Option.any_eq_true _ _).1 hp.2
    exact ⟨s, s', hs.mono fun _ _ _ => trivial, hs', hp.1, by simpa using hlost⟩
  · have hrun : devnetSees (fun _ _ => true) (fun s =>
        s.world.payments.inFlight Devnet.shortInvoice.paymentHash &&
          s.world.payments.failed Devnet.shortInvoice.paymentHash)
        (devnetBoot ++ devnetSend 3 ++ devnetResend 4) = true := by
      decide +kernel
    obtain ⟨s, hs, hp⟩ := Runtime.exists_reach_of_run hrun
    rw [Bool.and_eq_true] at hp
    exact ⟨s, hs.mono fun _ _ _ => trivial, hp⟩

end LightningRelay
