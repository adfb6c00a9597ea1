import LightningRelay.Payout.Work

/-!
# One invoice, one offramp

`request_offramp` refuses an invoice whose payment hash an offramp has, but the check and the insertion
are separated by the creation on Cardano.  Where no request checks a hash that another unfinished
request has found free (`solitary`), a payment hash belongs to one offramp, and the handlers of LDK's
events find the offramp whose payment an event reports.
-/

set_option autoImplicit false

namespace LightningRelay

open Async

/-- The payment hash that a request finds free. -/
def Entry.hashesTaken : Entry → List String
  | ⟨_, .handleOfframpRequest _ _, .db (.getOfframpByPaymentHash h), none⟩ => [h]
  | _ => []

namespace Payout

/-- No request checks a payment hash that another unfinished request has found free. -/
def solitary (s : Sys) (a : Act) : Bool := exclusive Entry.hashesTaken s a

/-- The payment hash under which a request is going to insert its row is free. -/
def Asking (w : World) (tid : ℕ) (l : Work) : Prop :=
  ∀ h, l = .requesting h → (∀ k x, w.offramp k = some x → x.paymentHash ≠ h) ∧
    ∃ e ∈ w.log, e.tid = tid ∧ h ∈ e.hashesTaken

/-- Two requests ask for different invoices. -/
def Different (l l' : Work) : Prop := ∀ h, l = .requesting h → l' ≠ .requesting h

/-- The payments with the requests that have checked their invoices. -/
def invoices (cfg : Config) : Discipline Op Op.Resp World Call (Stage × Option Work) :=
  ((accounts cfg).refine work).extend UniqueHash
    (fun w tid _ l => ∀ m, l.2 = some m → Asking w tid m)
    fun _ l _ l' => ∀ m m', l.2 = some m → l'.2 = some m' → Different m m'

section

variable {cfg : Config} {tid tid' : ℕ} {c : Call} {l l' l₀ : Work} {l₁ l₁' : Stage} {o : Op}
  {r : o.Resp} {w w' : World} {sp : Option Call} {h : String}

theorem Different.symm (hd : Different l l') : Different l' l := fun h hl hl' => hd h hl' hl

/-- A request that has found a hash free did so before, or does so now. -/
theorem requesting_of_move (tid : ℕ) (hm : Work.Move c l o r l') (hl : l' = .requesting h) :
    l = .requesting h ∨ o = .db (.getOfframpByPaymentHash h) ∧ HEq r (none : Option OfframpMapping) ∧
      h ∈ (⟨tid, c, o, r⟩ : Entry).hashesTaken := by
  cases hm with
  | quiet | handed => exact Or.inl hl
  | check =>
    cases hl
    exact Or.inr ⟨rfl, HEq.rfl, List.mem_singleton_self h⟩
  | _ => cases hl

/-- A row is inserted by a request that has found its hash free. -/
theorem requesting_of_insert {m : OfframpMapping} {r : (Op.db (.insertOfframp m)).Resp}
    (hm : Work.Move c l (.db (.insertOfframp m)) r l') :
    l = .requesting m.paymentHash ∧ l' = .idle := by
  cases hm with
  | quiet ho | unbuilt ho | given ho => cases ho
  | insert hh =>
    subst hh
    exact ⟨rfl, rfl⟩

/-- No row gets a hash that is free, except by the request that has found it so. -/
theorem free_mono (he : Effect tid c o r w w' sp) (hm₁ : Move cfg c l₁ o r l₁')
    (hm : Work.Move c l o r l') (hne : l ≠ .requesting h ∨ l' = .requesting h)
    (hfree : ∀ k x, w.offramp k = some x → x.paymentHash ≠ h) :
    ∀ k y, w'.offramp k = some y → y.paymentHash ≠ h := by
  intro k y hy hhash
  rcases offramp_origin he hm₁ hy with ⟨x, hx, hs⟩ | ⟨-, ⟨m, rfl, hs⟩, -⟩
  · exact hfree k x hx (hs.paymentHash ▸ hhash)
  · obtain ⟨hl, hl'⟩ := requesting_of_insert hm
    rw [← hs.paymentHash, hhash] at hl
    rcases hne with hne | hne
    · exact hne hl
    · rw [hl'] at hne
      cases hne

theorem asking_move (he : Effect tid c o r w w' sp) (hm₁ : Move cfg c l₁ o r l₁')
    (hm : Work.Move c l o r l') (hA : Asking w tid l) : Asking w' tid l' := by
  intro h hl
  refine ⟨free_mono he hm₁ hm (Or.inr hl) ?_, ?_⟩
  · rcases requesting_of_move tid hm hl with hold | ⟨rfl, hr, -⟩
    · exact (hA h hold).1
    · exact SwapDb.getOfframpByPaymentHash_eq_none_iff.1 (he.answered.symm.trans (eq_of_heq hr))
  · rcases requesting_of_move tid hm hl with hold | ⟨-, -, hnew⟩
    · exact logged_mono he (hA h hold).2
    · exact ⟨_, he.log ▸ List.mem_cons_self, rfl, hnew⟩

theorem asking_mono (he : Effect tid c o r w w' sp) (hm₁ : Move cfg c l₁ o r l₁')
    (hm : Work.Move c l o r l') (hA : Asking w tid' l₀) (hd : Different l l₀) :
    Asking w' tid' l₀ := by
  intro h hl
  refine ⟨free_mono he hm₁ hm (Or.inl fun hmine => ?_) (hA h hl).1, logged_mono he (hA h hl).2⟩
  exact hd h hmine hl

theorem different_move {s : Sys} {a : Answers} {t : Task Op Op.Resp Call}
    (hok : solitary s (.task tid a) = true) (htask : ∃ f, s.tasks tid = some ⟨c, .op o f⟩)
    (he : Effect tid c o r s.world w' sp) (hm : Work.Move c l o r l') (hd : Different l l₀)
    (hA : Asking s.world tid' l₀) (hne : tid' ≠ tid) (hlt : tid' < s.next)
    (ht : s.tasks tid' = some t) (hrun : l₀ ≠ .idle → t.rest.ended = false) : Different l' l₀ := by
  intro h hl hl₀
  rcases requesting_of_move tid hm hl with hold | ⟨rfl, -, hnew⟩
  · exact hd h hold hl₀
  · refine not_taken_of_logged hok htask he hne hlt ht (hrun ?_) (hA h hl₀).2 hnew
    rw [hl₀]
    exact nofun

theorem Asking.calm (hc : Calm w w') (hA : Asking w tid l) : Asking w' tid l := by
  intro h hl
  simpa only [hc.offramp, hc.log] using hA h hl

theorem invoices_sound (cfg : Config) (now : ℤ) :
    (invoices cfg).Sound (relay cfg) (fun s a => solitary s a = true) (World.fresh cfg now) := by
  refine ((accounts_sound cfg now).refine (body_works cfg)).extend (fun _ _ _ => trivial) ?_
  have hidle : ∀ (w : World) (tid : ℕ) (c : Call) (m : Work),
      some (work.start c) = some m → Asking w tid m := by
    rintro w tid c _ ⟨⟩ h hl
    cases hl
  have hapart : ∀ {l : Stage × Option Work} {c : Call} (m m' : Work), l.2 = some m →
      some (work.start c) = some m' → Different m m' := by
    rintro l c m _ - ⟨⟩ h -
    exact nofun
  exact {
    symm := fun h m m' hm hm' => (h m' m hm' hm).symm
    init := ⟨fun _ _ _ _ h => (nomatch h), hidle _ _ _⟩
    move := fun turn hp hm => by
      have he := effect_of_perform hp
      obtain ⟨a, b, ha, hW, hb⟩ := hm.2.move
      have hA := turn.owned.2 a ha
      refine ⟨uniqueHash_move he hm.1 ?_ turn.shared.2, fun m hm' => ?_⟩
      · rintro m rfl
        exact (hA _ (requesting_of_insert hW).1).1
      · rw [hb m hm']
        exact asking_move he hm.1 hW hA
    others := fun turn hp hm hne ht hkeep howned hap => by
      have he := effect_of_perform hp
      obtain ⟨a, b, ha, hW, hb⟩ := hm.2.move
      refine ⟨fun m₀ hm₀ => asking_mono he hm.1 hW (howned.2 m₀ hm₀) (hap.2 a m₀ ha hm₀),
        fun m m₀ hm' hm₀ => ?_⟩
      rw [hb m hm']
      exact different_move turn.ok turn.task he hW (hap.2 a m₀ ha hm₀) (howned.2 m₀ hm₀) hne
        (turn.reach.fresh.lt_next ht) ht fun hrun => Discipline.not_ended_of_refine hkeep hm₀ hrun
    spawned := fun _ _ _ => ⟨hidle _ _ _, hapart, fun _ _ _ _ _ => hapart⟩
    abort := fun turn hp => by
      obtain rfl := abort_of_perform hp
      exact ⟨uniqueHash_react .crash turn.shared.2, hidle _ _ _⟩
    react := fun next hr => uniqueHash_react (reaction_of_react hr) next.shared.2
    reactOthers := fun _ hr _ _ _ howned m hm =>
      (howned.2 m hm).calm (reaction_of_react hr).calm
    reactSpawn := fun _ _ => ⟨hidle _ _ _, fun _ _ _ => hapart⟩
    reactRestart := fun _ _ => hidle _ _ _ }

end

/-! ## What follows -/

section

variable {cfg : Config} {now : ℤ} {s : Sys}

/-- In every run in which no request checks an invoice that another unfinished request has found
unused: no two offramps have the same payment hash, and the handlers of LDK's events find the offramp
for which a payment was made. -/
theorem one_offramp_per_invoice (hs : ReachableBy cfg now (fun s a => solitary s a = true) s) :
    (∀ k k' r r', s.world.offramp k = some r → s.world.offramp k' = some r' →
      r.paymentHash = r'.paymentHash → k = k') ∧
    ∀ a ∈ s.world.attempts, ∀ k, depositFor k a.payer = true →
      ∃ r, s.world.offramp k = some r ∧
        s.world.db.getOfframpByPaymentHash a.paymentHash = some r := by
  obtain ⟨L, hL⟩ := (invoices_sound cfg now).holds hs
  refine ⟨hL.shared.2, fun a ha k hk => ?_⟩
  obtain ⟨j, hj⟩ := List.mem_iff_getElem?.1 ha
  obtain ⟨r, hr, -, hhash⟩ := hL.shared.1.2.deposits j a k hj hk
  refine ⟨r, hr, ?_⟩
  rw [hhash]
  exact getOfframpByPaymentHash_of_unique hL.shared.2 hr

end

set_option maxRecDepth 100000 in
/-- On the devnet a second offramp is requested and the first one is paid. -/
theorem one_offramp_per_invoice_paid : ∃ s r,
    ReachableBy Devnet.config Devnet.startTime (fun s a => solitary s a = true) s ∧
    s.world.attempts.map (fun a => (a.paymentHash, depositFor 1 a.payer)) =
      [(Devnet.invoice1.paymentHash, true)] ∧
    (s.world.offramp 2).isSome = true ∧ s.world.offramp 1 = some r ∧
    s.world.db.getOfframpByPaymentHash Devnet.invoice1.paymentHash = some r := by
  obtain ⟨s, hs, hp⟩ := Devnet.reachableBy_of_after solitary
    (Devnet.paidRun ++ Devnet.offrampRequest 5 2 Devnet.invoice2) (fun s =>
      s.world.attempts.map (fun a => (a.paymentHash, depositFor 1 a.payer)) =
        [(Devnet.invoice1.paymentHash, true)] && (s.world.offramp 2).isSome) (by decide +kernel)
  simp only [Bool.and_eq_true, decide_eq_true_eq] at hp
  obtain ⟨hatt, hsome⟩ := hp
  obtain ⟨a, ha, heq⟩ := List.map_eq_singleton_iff.1 hatt
  obtain ⟨hhash, hpay⟩ := Prod.mk.inj heq
  obtain ⟨r, hr, hfound⟩ := (one_offramp_per_invoice hs).2 a (ha ▸ List.mem_singleton_self a) 1 hpay
  exact ⟨s, r, hs, hatt, hsome, hr, hhash ▸ hfound⟩

/-- Two requests with the same invoice, both of which check it before either inserts its row. -/
def twinRun : List Act :=
  Devnet.boot ++
    .env (.request (.handleOfframpRequest "127.0.0.1" ⟨Devnet.invoice1.text, 50, Devnet.userAddress⟩)) ::
    .env (.request (.handleOfframpRequest "127.0.0.1" ⟨Devnet.invoice1.text, 50, Devnet.userAddress⟩)) ::
    Devnet.steps 3 3 Devnet.ok ++ Devnet.steps 4 3 Devnet.ok ++
    Devnet.steps 3 4 (Devnet.answers 1 "create" Devnet.emptyPool) ++
    Devnet.steps 4 4 (Devnet.answers 2 "create" Devnet.emptyPool) ++
    Devnet.deposit 2 Devnet.depositTx :: Devnet.steps 5 11 Devnet.ok

set_option maxRecDepth 100000 in
/-- Two offramps have the same payment hash; the second one is being paid, and the handlers of its
payment find the first one. -/
theorem devnet_invoice_used_twice : ∃ s r₁ r₂, Reachable Devnet.config Devnet.startTime s ∧
    s.world.offramp 1 = some r₁ ∧ s.world.offramp 2 = some r₂ ∧ r₁.paymentHash = r₂.paymentHash ∧
    r₁.status = .awaitingDeposit ∧ r₂.status = .payingLightning ∧
    s.world.db.getOfframpByPaymentHash r₂.paymentHash = some r₁ := by
  obtain ⟨s, hs, hp⟩ := Devnet.reachable_of_after twinRun (fun s =>
    (s.world.offramp 1).any fun r₁ => (s.world.offramp 2).any fun r₂ =>
      r₁.paymentHash = r₂.paymentHash && r₁.status = .awaitingDeposit &&
        r₂.status = .payingLightning &&
        s.world.db.getOfframpByPaymentHash r₂.paymentHash = some r₁) (by decide +kernel)
  simp only [Option.any_eq_true, Bool.and_eq_true, decide_eq_true_eq] at hp
  obtain ⟨r₁, h₁, r₂, h₂, ⟨⟨hhash, hst₁⟩, hst₂⟩, hfound⟩ := hp
  exact ⟨s, r₁, r₂, hs, h₁, h₂, hhash, hst₁, hst₂, hfound⟩

end Payout

end LightningRelay
