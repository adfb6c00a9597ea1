import LightningRelay.Payout.Attempts

/-!
# Cancelling and paying

The expiry monitor cancels the rows of a snapshot, and `process_offramp_deposit` does not look at
the expiry of its row.  A deposit that wins an expired row pays while the monitor cancels; and a row
that was marked Failed although its payment is in flight or has succeeded is selected as expired.

* `devnet_cancelled_and_paid`: a run in which an offramp is cancelled and paid.
* `cancelled_not_paid`: where deposits win their rows before the expiry and the monitor's snapshot
  has no Failed row with a live payment (`timely`), no offramp that the monitor cancels has a payment
  that succeeded or is in flight.
-/

set_option autoImplicit false

namespace LightningRelay

open Async

/-- The offramp for which the monitor submitted a CancelOfframp transaction. -/
def Entry.cancelled? : Entry → Option ℤ
  | ⟨_, .monitorExpiredOfframps, .operator (.offramp id) (.submitTx ⟨.cancelOfframp _, _⟩), _⟩ =>
    some id
  | _ => none

/-- How often the monitor submitted a CancelOfframp transaction for an offramp. -/
def World.cancels (w : World) (id : ℤ) : ℕ := w.log.countP fun e => e.cancelled? = some id

namespace Payout

/-- A deposit wins its row only before the expiry, and a Failed row with a deposit is taken into the
monitor's snapshot only if its payments have failed and no deposit for it is running. -/
def timely (s : Sys) : Act → Bool
  | .task tid _ =>
    match s.tasks tid with
    | some ⟨_, .op (.db (.transitionOfframpStatus id .awaitingDeposit .pendingVerification)) _⟩ =>
      (s.world.offramp id).all fun r =>
        r.status ≠ .awaitingDeposit || s.world.clock ≤ r.expiresAt || r.expiresAt ≤ 0
    | some ⟨.monitorExpiredOfframps, .op (.db (.getExpiredOfframps t)) _⟩ =>
      (s.world.db.getExpiredOfframps t).all fun r =>
        r.status ≠ .failed || r.cbtcTxHash = "" ||
          paymentsFailed s.world r.offrampId && !s.running (depositFor r.offrampId)
    | _ => true
  | .env _ => true

/-- The offramp has expired, no deposit can reach its payment any more, and none is in flight or has
succeeded. -/
structure Barred (w : World) (id : ℤ) : Prop where
  row : ∃ r, w.offramp id = some r ∧ 0 < r.expiresAt ∧ r.expiresAt < w.clock ∧
    r.status ≠ .pendingVerification
  failed : ∀ (j : ℕ) a, w.attempts[j]? = some a → depositFor id a.payer = true →
    a.outcome = some .failed

/-- Offramps that the monitor cancelled are barred. -/
def Cancelled (w : World) : Prop := ∀ id, w.cancels id ≠ 0 → Barred w id

/-- The rows that a task is about to cancel. -/
def Stage.targets : Stage → List OfframpMapping
  | .cancelling rows => rows
  | _ => []

/-- What the monitor and a deposit that is about to pay know. -/
structure Watched (w : World) (_ : ℕ) (c : Call) (l : Stage) : Prop where
  timed : ∀ t, l = .timed t → t ≤ w.clock
  snapshot : ∀ m ∈ l.targets, Barred w m.offrampId
  paying : ∀ k, hands c l = some k → w.cancels k = 0

/-- The monitor does not cancel what a deposit is about to pay. -/
def Clear (c : Call) (l : Stage) (_ : Call) (l' : Stage) : Prop :=
  ∀ k, hands c l = some k → ∀ m ∈ l'.targets, m.offrampId ≠ k

/-- Neither of two tasks cancels what the other is about to pay. -/
def Exclusive (c : Call) (l : Stage) (c' : Call) (l' : Stage) : Prop :=
  Clear c l c' l' ∧ Clear c' l' c l

/-! ## One move -/

section

variable {cfg : Config} {tid tid' : ℕ} {c : Call} {l l' : Stage} {o : Op} {r : o.Resp}
  {w w' : World} {sp : Option Call} {k : ℤ}

theorem cancelled?_eq_some (hm : Move cfg c l o r l')
    (h : (⟨tid, c, o, r⟩ : Entry).cancelled? = some k) :
    c = .monitorExpiredOfframps ∧ ∃ m ∈ l.targets, m.offrampId = k := by
  unfold Entry.cancelled? at h
  split at h
  next he =>
    obtain ⟨-, rfl, rfl, -⟩ := Entry.mk.inj he
    obtain rfl := Option.some.inj h
    refine ⟨rfl, ?_⟩
    cases hm with
    | quiet hq => cases hq
    | cancel hmem => exact ⟨_, hmem, rfl⟩
  next => cases h

theorem cancels_eq (he : Effect tid c o r w w' sp) (k : ℤ) :
    w'.cancels k = w.cancels k +
      if (⟨tid, c, o, r⟩ : Entry).cancelled? = some k then 1 else 0 := by
  simp only [World.cancels, he.log, List.countP_cons, decide_eq_true_eq]

/-- What the condition says of a move. -/
structure Timely (c : Call) (o : Op) (s : Sys) : Prop where
  claim : ∀ id r, o = .db (.transitionOfframpStatus id .awaitingDeposit .pendingVerification) →
    s.world.offramp id = some r → r.status = .awaitingDeposit → 0 < r.expiresAt →
    s.world.clock ≤ r.expiresAt
  select : ∀ t r, c = .monitorExpiredOfframps → o = .db (.getExpiredOfframps t) →
    r ∈ s.world.db.getExpiredOfframps t → r.status = .failed → r.cbtcTxHash ≠ "" →
    paymentsFailed s.world r.offrampId = true ∧ s.running (depositFor r.offrampId) = false

theorem timely_of_ok {s : Sys} {a : Answers} (htask : ∃ k, s.tasks tid = some ⟨c, .op o k⟩)
    (hok : timely s (.task tid a) = true) : Timely c o s := by
  obtain ⟨k, ht⟩ := htask
  constructor
  · rintro id r rfl hr hst hpos
    simp only [timely, ht, hr, Option.all_some, hst, ne_eq, not_true_eq_false, decide_false,
      Bool.false_or, Bool.or_eq_true, decide_eq_true_eq] at hok
    omega
  · rintro t r rfl rfl hmem hst hne
    simp only [timely, ht, List.all_eq_true] at hok
    simpa [hst, hne] using hok r hmem

/-- An expired row that is not being verified stays so: only a deposit moves it to
PendingVerification, and not after the expiry. -/
theorem barred_row_move {s : Sys} (he : Effect tid c o r s.world w' sp) (hm : Move cfg c l o r l')
    (ht : Timely c o s) (h : Barred s.world k) :
    ∃ y, w'.offramp k = some y ∧ 0 < y.expiresAt ∧ y.expiresAt < w'.clock ∧
      y.status ≠ .pendingVerification := by
  obtain ⟨x, hx, hpos, hlt, hst⟩ := h.row
  have hrow := rowMove he hm k
  rw [he.clock]
  rw [hx] at hrow
  generalize hy : w'.offramp k = row at hrow
  cases hrow with
  | same => exact ⟨x, rfl, hpos, hlt, hst⟩
  | @write _ _ _ _ y hs _ hw =>
    rw [← hs.expiresAt] at hpos hlt
    refine ⟨y, rfl, hpos, hlt, ?_⟩
    generalize hst' : y.status = st' at hw
    generalize hst₀ : x.status = st₀ at hw
    cases hw with
    | claim =>
      cases hm with
      | claim =>
        have := ht.claim k x rfl hx hst₀ (hs.expiresAt ▸ hpos)
        rw [hs.expiresAt] at hlt
        omega
    | advance _ h => rcases h with rfl | rfl <;> exact nofun
    | _ => exact nofun
  | record _ _ hst' => exact absurd hst' hst

/-- A move adds no payment for an offramp that its task does not hold. -/
theorem failed_move (he : Effect tid c o r w w' sp) (hm : Move cfg c l o r l')
    (hk : hands c l ≠ some k)
    (h : ∀ (j : ℕ) a, w.attempts[j]? = some a → depositFor k a.payer = true →
      a.outcome = some .failed) (j : ℕ) (a : Attempt) (ha : w'.attempts[j]? = some a)
    (hpay : depositFor k a.payer = true) : a.outcome = some .failed := by
  rcases attempt_origin he hm ha with ha | ⟨-, hp, -, invoice, amt, -, -, hc⟩
  · exact h j a ha hpay
  · rw [hp] at hpay
    rcases hc with ⟨i, b, rfl⟩ | ⟨ip, id, tx, m, b, rfl, rfl, -⟩
    · cases hpay
    · obtain rfl : id = k := by simpa [depositFor] using hpay
      exact absurd rfl hk

theorem barred_move {s : Sys} (he : Effect tid c o r s.world w' sp) (hm : Move cfg c l o r l')
    (ht : Timely c o s) (hk : hands c l ≠ some k) (h : Barred s.world k) : Barred w' k :=
  ⟨barred_row_move he hm ht h, failed_move he hm hk h.failed⟩

theorem cancelled_move {s : Sys} (he : Effect tid c o r s.world w' sp) (hm : Move cfg c l o r l')
    (ht : Timely c o s) (hC : Cancelled s.world) (hW : Watched s.world tid c l) :
    Cancelled w' := by
  intro k hk
  rw [cancels_eq he] at hk
  by_cases hent : (⟨tid, c, o, r⟩ : Entry).cancelled? = some k
  · obtain ⟨rfl, m, hmem, rfl⟩ := cancelled?_eq_some hm hent
    exact barred_move he hm ht nofun (hW.snapshot m hmem)
  · rw [if_neg hent, Nat.add_zero] at hk
    exact barred_move he hm ht (fun h => hk (hW.paying k h)) (hC k hk)

/-- A deposit stores its transaction only in a row that is being verified. -/
theorem pending_of_record (he : Effect tid c o r w w' sp) {tx : String}
    (ho : o = .db (.transitionOfframpWithCbtcTx k tx .pendingVerification .payingLightning))
    (hr : HEq r true) : ∃ x, w.offramp k = some x ∧ x.status = .pendingVerification := by
  subst ho
  have hans : (w.db.transitionOfframpWithCbtcTx k tx .pendingVerification .payingLightning).1 =
    true := he.answered.symm.trans (eq_of_heq hr)
  exact SwapDb.transitionOfframpWithCbtcTx_fst_iff.1 hans

theorem not_pending_of_barred (h : Barred w k) :
    ¬ ∃ x, w.offramp k = some x ∧ x.status = .pendingVerification := by
  rintro ⟨x, hx, hst⟩
  obtain ⟨y, hy, -, -, hne⟩ := h.row
  rw [hx] at hy
  obtain rfl := Option.some.inj hy
  exact hne hst

/-! ### The snapshot -/

/-- A deposit that is about to pay has not ended. -/
theorem running_of_hands (h : hands c l = some k) : l.done = false ∧ depositFor k c = true := by
  cases c with
  | handleOfframpDeposit ip req =>
    cases l with
    | paying | sending => exact ⟨rfl, by simpa [hands, depositFor] using h⟩
    | _ => cases h
  | _ => cases h

theorem stored_of_hands (hK : Knows w tid c l) (h : hands c l = some k) : ∃ tx, w.Stored k tx := by
  cases c with
  | handleOfframpDeposit ip req =>
    cases l with
    | paying =>
      obtain rfl := Option.some.inj h
      exact ⟨_, (hK.deposit _ _ _ rfl).2.1⟩
    | sending =>
      obtain rfl := Option.some.inj h
      exact ⟨_, (hK.deposit _ _ _ rfl).2⟩
    | _ => cases h
  | _ => cases h

/-- What the condition says of a selected row with a deposit. -/
theorem selected_of_stored {s : Sys} {t : ℤ} {m x : OfframpMapping}
    (hL : Ledger s.world m.offrampId)
    (ht : Timely .monitorExpiredOfframps (.db (.getExpiredOfframps t)) s)
    (hmem : m ∈ s.world.db.getExpiredOfframps t) (hx : s.world.offramp m.offrampId = some x)
    (hne : x.cbtcTxHash ≠ "") :
    paymentsFailed s.world m.offrampId = true ∧ s.running (depositFor m.offrampId) = false := by
  obtain ⟨hrow, hst, -⟩ := SwapDb.mem_getExpiredOfframps.1 hmem
  obtain rfl : m = x := Option.some.inj (hrow.symm.trans hx)
  rcases hst with hst | hst
  · exact absurd (hL.early m hx (Or.inl hst)) hne
  · exact ht.select t m rfl rfl hmem hst hne

theorem barred_of_selected {s : Sys} {t : ℤ} {m : OfframpMapping} (hA : Accounts cfg s.world)
    (hL : ∀ k, Ledger s.world k)
    (ht : Timely .monitorExpiredOfframps (.db (.getExpiredOfframps t)) s)
    (hclock : t ≤ s.world.clock) (hmem : m ∈ s.world.db.getExpiredOfframps t) :
    Barred s.world m.offrampId := by
  obtain ⟨hrow, hst, hpos, hlt⟩ := SwapDb.mem_getExpiredOfframps.1 hmem
  have hnot : m.status ≠ .pendingVerification := by
    rcases hst with hst | hst <;> rw [hst] <;> decide
  refine ⟨⟨m, hrow, hpos, by omega, hnot⟩, fun j a ha hpay => ?_⟩
  obtain ⟨x, hx, hne, -⟩ := hA.deposits j a _ ha hpay
  have hfailed := (selected_of_stored (hL _) ht hmem hx hne).1
  exact failed_of_paymentsFailed hfailed (List.mem_of_getElem? ha) hpay

/-- The monitor reads the clock, then selects the expired rows. -/
theorem timed_of_move (hm : Move cfg c l o r l') {t : ℤ} (h : l' = .timed t) :
    l = .timed t ∨ o = .now ∧ HEq r t := by
  cases hm with
  | quiet | fail | spawn | request | enterCli | payCli | cancelFailed => exact Or.inl h
  | time =>
    obtain rfl := Stage.timed.inj h
    exact Or.inr ⟨rfl, HEq.rfl⟩
  | _ => cases h

theorem targets_of_move (hm : Move cfg c l o r l') :
    l'.targets = [] ∨ l'.targets = l.targets ∨
      ∃ t, c = .monitorExpiredOfframps ∧ l = .timed t ∧ o = .db (.getExpiredOfframps t) ∧
        HEq r l'.targets := by
  cases hm with
  | snapshot => exact Or.inr (Or.inr ⟨_, rfl, rfl, rfl, HEq.rfl⟩)
  | quiet | fail | spawn | request | enterCli | payCli | cancelFailed | cancel =>
    exact Or.inr (Or.inl rfl)
  | _ => exact Or.inl rfl

/-- The rows that the monitor is about to cancel after a move are barred. -/
theorem snapshot_move {s : Sys} (he : Effect tid c o r s.world w' sp) (hm : Move cfg c l o r l')
    (hA : Accounts cfg s.world) (hL : ∀ k, Ledger s.world k) (ht : Timely c o s)
    (hW : Watched s.world tid c l) (m : OfframpMapping) (hmem : m ∈ l'.targets) :
    Barred w' m.offrampId := by
  rcases targets_of_move hm with hnil | hsame | ⟨t, rfl, rfl, rfl, hr⟩
  · rw [hnil] at hmem
    cases hmem
  · rw [hsame] at hmem
    have hk : hands c l ≠ some m.offrampId := by
      cases l with
      | cancelling => cases c <;> exact nofun
      | _ => cases hmem
    exact barred_move he hm ht hk (hW.snapshot m hmem)
  · have hans : l'.targets = s.world.db.getExpiredOfframps t :=
      (eq_of_heq hr).symm.trans he.answered
    rw [hans] at hmem
    exact barred_move he hm ht nofun
      (barred_of_selected hA hL ht (hW.timed t rfl) hmem)

/-- A deposit that stores its transaction does so in a row that is not barred. -/
theorem not_barred_of_hands (he : Effect tid c o r w w' sp) (hm : Move cfg c l o r l')
    (hk : hands c l' = some k) : hands c l = some k ∨ ¬ Barred w k := by
  rcases hands_of_move hm hk with ⟨hk₀, -⟩ | ⟨ip, tx, m, -, -, ho, hr⟩
  · exact Or.inl hk₀
  · exact Or.inr fun hB => not_pending_of_barred hB (pending_of_record he ho hr)

theorem watched_move {s : Sys} (he : Effect tid c o r s.world w' sp) (hm : Move cfg c l o r l')
    (hA : Accounts cfg s.world) (hL : ∀ k, Ledger s.world k) (ht : Timely c o s)
    (hC : Cancelled s.world) (hW : Watched s.world tid c l) : Watched w' tid c l' where
  timed t hl := by
    rw [he.clock]
    rcases timed_of_move hm hl with hl | ⟨rfl, hr⟩
    · exact hW.timed t hl
    · have hans : t = s.world.clock := (eq_of_heq hr).symm.trans he.answered
      omega
  snapshot := snapshot_move he hm hA hL ht hW
  paying k hk := by
    have hent : (⟨tid, c, o, r⟩ : Entry).cancelled? ≠ some k := by
      intro hent
      obtain ⟨rfl, -⟩ := cancelled?_eq_some hm hent
      cases hk
    rw [cancels_eq he, if_neg hent, Nat.add_zero]
    by_contra hne
    rcases not_barred_of_hands he hm hk with hk₀ | hB
    · exact hne (hW.paying k hk₀)
    · exact hB (hC k hne)

theorem watched_mono {s : Sys} {d : Call} {l₀ : Stage} (he : Effect tid c o r s.world w' sp)
    (hm : Move cfg c l o r l') (ht : Timely c o s) (hex : Exclusive c l d l₀)
    (h : Watched s.world tid' d l₀) : Watched w' tid' d l₀ where
  timed t hl := by
    rw [he.clock]
    exact h.timed t hl
  snapshot m hmem := barred_move he hm ht (fun hk => hex.1 _ hk m hmem rfl) (h.snapshot m hmem)
  paying k hk := by
    have hent : (⟨tid, c, o, r⟩ : Entry).cancelled? ≠ some k := by
      intro hent
      obtain ⟨-, m, hmem, hid⟩ := cancelled?_eq_some hm hent
      exact hex.2 k hk m hmem hid
    rw [cancels_eq he, if_neg hent, Nat.add_zero]
    exact h.paying k hk

/-- A row with a deposit that is about to pay is not selected. -/
theorem clear_of_selected {s : Sys} {t : ℤ} {task : Task Op Op.Resp Call} {l₀ : Stage}
    {m : OfframpMapping} (hL : ∀ k, Ledger s.world k)
    (ht : Timely .monitorExpiredOfframps (.db (.getExpiredOfframps t)) s)
    (hlt : tid' < s.next) (htask : s.tasks tid' = some task)
    (hkeep : Follows (Move cfg task.call) (fun _ l' => l'.done = true) task.rest l₀)
    (hK : Knows s.world tid' task.call l₀) (hk : hands task.call l₀ = some k)
    (hmem : m ∈ s.world.db.getExpiredOfframps t) : m.offrampId ≠ k := by
  rintro rfl
  obtain ⟨tx, x, hx, rfl, hne⟩ := stored_of_hands hK hk
  have hno := (selected_of_stored (hL _) ht hmem hx hne).2
  obtain ⟨hdone, hdep⟩ := running_of_hands hk
  rw [State.running_of_task hlt htask hdep (not_ended hkeep hdone)] at hno
  cases hno

theorem exclusive_move {s : Sys} {task : Task Op Op.Resp Call} {l₀ : Stage}
    (he : Effect tid c o r s.world w' sp) (hm : Move cfg c l o r l') (hL : ∀ k, Ledger s.world k)
    (ht : Timely c o s) (hlt : tid' < s.next) (htask : s.tasks tid' = some task)
    (hkeep : Follows (Move cfg task.call) (fun _ l' => l'.done = true) task.rest l₀)
    (hK : Knows s.world tid' task.call l₀) (hW : Watched s.world tid' task.call l₀)
    (hex : Exclusive c l task.call l₀) : Exclusive c l' task.call l₀ := by
  constructor
  · rintro k hk m hmem rfl
    rcases not_barred_of_hands he hm hk with hk₀ | hB
    · exact hex.1 _ hk₀ m hmem rfl
    · exact hB (hW.snapshot m hmem)
  · intro k hk m hmem
    rcases targets_of_move hm with hnil | hsame | ⟨t, rfl, rfl, rfl, hr⟩
    · rw [hnil] at hmem
      cases hmem
    · exact hex.2 k hk m (hsame ▸ hmem)
    · have hans : l'.targets = s.world.db.getExpiredOfframps t :=
        (eq_of_heq hr).symm.trans he.answered
      exact clear_of_selected hL ht hlt htask hkeep hK hk (hans ▸ hmem)

/-! ## All runs -/

theorem barred_react {e : Env} {ch : Change Call} (hr : Reaction w e w' ch) (h : Barred w k) :
    Barred w' k where
  row := by
    obtain ⟨x, hx, hpos, hlt, hst⟩ := h.row
    exact ⟨x, (hr.calm.offramp k).trans hx, hpos, Int.lt_of_lt_of_le hlt hr.calm.clock, hst⟩
  failed j a' ha' hpay := by
    obtain ⟨a, ha, -, hpayer⟩ := reaction_attempts hr ha'
    have hout := h.failed j a ha (hpayer ▸ hpay)
    have hsame := reaction_ended hr ha (by simp [hout])
    rw [ha'] at hsame
    rw [Option.some.inj hsame, hout]

theorem cancels_react {e : Env} {ch : Change Call} (hr : Reaction w e w' ch) :
    w'.cancels k = w.cancels k := by
  rw [World.cancels, hr.calm.log, World.cancels]

theorem cancelled_react {e : Env} {ch : Change Call} (hr : Reaction w e w' ch)
    (hC : Cancelled w) : Cancelled w' := by
  intro k hk
  rw [cancels_react hr] at hk
  exact barred_react hr (hC k hk)

theorem watched_react {e : Env} {ch : Change Call} (hr : Reaction w e w' ch)
    (h : Watched w tid c l) : Watched w' tid c l where
  timed t hl := Int.le_trans (h.timed t hl) hr.calm.clock
  snapshot m hmem := barred_react hr (h.snapshot m hmem)
  paying k hk := (cancels_react hr).trans (h.paying k hk)

theorem targets_start (c : Call) : (start c).targets = [] := by
  unfold start
  split <;> rfl

theorem hands_start (c : Call) : hands c (start c) = none := by
  rcases h : hands c (start c) with _ | k
  · rfl
  · have hk := holds_of_hands h
    rw [holds_start] at hk
    cases hk

theorem watched_start (c : Call) : Watched w tid c (start c) where
  timed t hl := by
    unfold start at hl
    split at hl <;> cases hl
  snapshot m hmem := by
    rw [targets_start] at hmem
    cases hmem
  paying k hk := by
    rw [hands_start] at hk
    cases hk

theorem exclusive_start (c' : Call) : Exclusive c l c' (start c') := by
  constructor
  · intro k _ m hmem
    rw [targets_start] at hmem
    cases hmem
  · intro k hk
    rw [hands_start] at hk
    cases hk

/-- The discipline of the cancellations. -/
def expiry (cfg : Config) : Discipline Op Op.Resp World Call Stage :=
  (accounts cfg).extend Cancelled Watched Exclusive

theorem expiry_sound (cfg : Config) (now : ℤ) :
    (expiry cfg).Sound (relay cfg) (fun s a => timely s a = true) (World.fresh cfg now) := by
  refine (accounts_sound cfg now).extend (fun _ _ _ => trivial) ?_
  exact {
    symm := fun h => ⟨h.2, h.1⟩
    init := ⟨fun _ h => absurd rfl h, watched_start _⟩
    move := fun turn hp hm => by
      have he := effect_of_perform hp
      have ht := timely_of_ok turn.task turn.ok
      obtain ⟨⟨hL, hA⟩, hC⟩ := turn.shared
      exact ⟨cancelled_move he hm ht hC turn.owned.2,
        watched_move he hm hA hL ht hC turn.owned.2⟩
    others := fun turn hp hm _ htask hkeep howned hap => by
      have he := effect_of_perform hp
      have ht := timely_of_ok turn.task turn.ok
      have hlt := turn.reach.fresh.lt_next htask
      exact ⟨watched_mono he hm ht hap.2 howned.2,
        exclusive_move he hm turn.shared.1.1 ht hlt htask hkeep howned.1.1 howned.2 hap.2⟩
    spawned := fun _ _ _ => ⟨watched_start _, exclusive_start _, fun _ _ _ _ _ => exclusive_start _⟩
    abort := fun turn hp => by
      obtain rfl := abort_of_perform hp
      exact ⟨cancelled_react .crash turn.shared.2, watched_start _⟩
    react := fun next hr => cancelled_react (reaction_of_react hr) next.shared.2
    reactOthers := fun _ hr _ _ _ howned => watched_react (reaction_of_react hr) howned.2
    reactSpawn := fun _ _ => ⟨watched_start _, fun _ _ _ => exclusive_start _⟩
    reactRestart := fun _ _ => watched_start _ }

end

section

variable {cfg : Config} {now : ℤ} {s : Sys}

/-- In every timely run: an offramp for which the monitor submitted a CancelOfframp transaction has
no payment by a deposit that succeeded or is in flight. -/
theorem cancelled_not_paid (h : ReachableBy cfg now (fun s a => timely s a = true) s) (id : ℤ) :
    ¬ (s.world.cancels id ≠ 0 ∧ ∃ a ∈ s.world.attempts, depositFor id a.payer = true ∧
      (a.outcome = none ∨ ∃ p, a.outcome = some (.sent p))) := by
  obtain ⟨L, hL⟩ := (expiry_sound cfg now).holds h
  rintro ⟨hne, a, ha, hpay, hout⟩
  obtain ⟨j, hj⟩ := List.mem_iff_getElem?.1 ha
  have hfailed := (hL.shared.2 id hne).failed j a hj hpay
  rcases hout with hout | ⟨p, hout⟩ <;> simp [hfailed] at hout

/-- The first offramp is refunded after its payment failed, expires and is cancelled. -/
def cancelledRun : List Act :=
  Devnet.refundedRun ++ .env (.tick 3600001) :: Devnet.steps 2 5 Devnet.ok

set_option maxRecDepth 100000 in
theorem cancelled_not_paid_refunded : ∃ s,
    ReachableBy Devnet.config Devnet.startTime (fun s a => timely s a = true) s ∧
    s.world.cancels 1 = 1 ∧ s.world.attempts.map (·.outcome) = [some .failed] ∧
    ¬ (s.world.cancels 1 ≠ 0 ∧ ∃ a ∈ s.world.attempts, depositFor 1 a.payer = true ∧
      (a.outcome = none ∨ ∃ p, a.outcome = some (.sent p))) := by
  obtain ⟨s, hs, hp⟩ := Devnet.reachableBy_of_after timely cancelledRun (fun s =>
    decide (s.world.cancels 1 = 1 ∧ s.world.attempts.map (·.outcome) = [some .failed]))
    (by decide +kernel)
  obtain ⟨hone, hout⟩ := of_decide_eq_true hp
  exact ⟨s, hs, hone, hout, cancelled_not_paid hs 1⟩

/-- The monitor selects the first offramp after its expiry; then its deposit arrives and is paid; then
the monitor goes on with its snapshot. -/
def lateRun : List Act :=
  Devnet.boot ++ Devnet.offrampRequest 3 1 Devnet.invoice1 ++
    .env (.tick 3600001) :: Devnet.steps 2 3 Devnet.ok ++
    Devnet.deposit 1 Devnet.depositTx :: Devnet.steps 4 11 Devnet.ok ++
    Devnet.steps 2 2 Devnet.ok ++ [.env (.settle 0 (.sent "preimage"))]

set_option maxRecDepth 100000 in
/-- The monitor cancels an offramp whose deposit is verified and whose invoice is paid. -/
theorem devnet_cancelled_and_paid : ∃ s, Reachable Devnet.config Devnet.startTime s ∧
    s.world.cancels 1 = 1 ∧ s.world.attempts.any (fun a =>
      depositFor 1 a.payer && a.outcome = some (.sent "preimage")) = true := by
  obtain ⟨s, hs, hp⟩ := Devnet.reachable_of_after lateRun (fun s =>
    decide (s.world.cancels 1 = 1 ∧ s.world.attempts.any (fun a =>
      depositFor 1 a.payer && a.outcome = some (.sent "preimage")) = true)) (by decide +kernel)
  exact ⟨s, hs, of_decide_eq_true hp⟩

end

end Payout

end LightningRelay
