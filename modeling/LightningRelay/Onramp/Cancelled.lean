import LightningRelay.Cancellations
import LightningRelay.Onramp.Work

/-!
# Cancelled LM invoices

The monitor cancels an LM invoice and then marks its swap Expired; the commands and the startup cancel
without a word to the database.  Where those find no Pending swap, LM invoices have one swap each, and
the process does not go down between the two steps of the monitor, the swap of a cancelled LM invoice
is not Pending once the task that cancelled it is over (`noPending_of_cancelled`).
-/

set_option autoImplicit false

namespace LightningRelay

open Async

namespace World

/-- The swaps of an LM invoice. -/
def swapsOf (w : World) (invoiceId : ℤ) : List SwapMapping :=
  w.db.swaps.select fun r => r.invoiceId = invoiceId

/-- No swap of the LM invoice is Pending. -/
def noPending (w : World) (invoiceId : ℤ) : Bool :=
  (w.swapsOf invoiceId).all fun r => r.status ≠ .pending

end World

namespace Onramp

/-- The swaps as a side of the relay. -/
def swaps : Side where
  isWork := Op.swapWork
  cancelled? := Entry.invoiceCancelled?
  closed := World.noPending
  monitor := .monitorExpiredSwaps
  closed_congr id h := by rw [World.noPending, World.swapsOf, h, World.noPending, World.swapsOf]

/-- A swap is inserted for an LM invoice that no swap has and that was not cancelled; and only the
monitor, for its own row, cancels an LM invoice that has a Pending swap. -/
def tracksSwaps (s : Sys) : Act → Bool
  | .task tid a =>
    match s.tasks tid with
    | some ⟨_, .op (.db (.insert m)) _⟩ =>
      (s.world.swapsOf m.invoiceId).isEmpty &&
        s.world.log.all fun e => e.invoiceCancelled? ≠ some m.invoiceId
    | some ⟨_, .op (.operator (.swap _) _) _⟩ => true
    | some ⟨_, .op (.operator about (.submitTx ⟨.cancelInvoice id, hex⟩)) _⟩ =>
      match a.operator about (.submitTx ⟨.cancelInvoice id, hex⟩) with
      | .ok _ => s.world.noPending id
      | .error _ => true
    | _ => true
  | .env _ => true

/-- The condition under which the swaps follow the cancellations. -/
def followsSwaps (s : Sys) (a : Act) : Bool := tracksSwaps s a && swaps.safelyDown s a

/-- An LM invoice belongs to one swap. -/
def UniqueInvoice (w : World) : Prop :=
  ∀ h h' r r', w.swap h = some r → w.swap h' = some r' → r.invoiceId = r'.invoiceId → h = h'

/-- The rows of the monitor's snapshot that it has not dealt with. -/
def Work.snapshot : Work → List SwapMapping
  | .cancelling todo => todo
  | .cancelled m todo => m :: todo
  | _ => []

/-- What a task knows of the swaps that it cancels. -/
structure Cancels (w : World) (tid : ℕ) (c : Call) (x : Option Work) : Prop where
  monitor : ∀ m todo, x = some (.cancelled m todo) → c = .monitorExpiredSwaps
  midway : ∀ id, swaps.midway? w tid = some id → ∃ m todo, x = some (.cancelled m todo) ∧
    m.invoiceId = id
  rows : ∀ l, x = some l → ∀ m ∈ l.snapshot, ∃ r, w.swap m.paymentHash = some r ∧
    r.invoiceId = m.invoiceId

section

variable {tid tid' : ℕ} {c : Call} {l l' : Work} {o : Op} {r : o.Resp} {w w' : World}
  {sp : Option Call} {id : ℤ} {h : String}

theorem mem_swapsOf {m : SwapMapping} :
    m ∈ w.swapsOf id ↔ w.swap m.paymentHash = some m ∧ m.invoiceId = id := by
  rw [World.swapsOf, Sql.Table.mem_select, decide_eq_true_eq]
  rfl

theorem noPending_iff : w.noPending id = true ↔
    ∀ h r, w.swap h = some r → r.invoiceId = id → r.status ≠ .pending := by
  simp only [World.noPending, List.all_eq_true, decide_eq_true_eq]
  constructor
  · intro hall h r hr hid
    obtain rfl := SwapDb.paymentHash_of_getByPaymentHash hr
    exact hall r (mem_swapsOf.2 ⟨hr, hid⟩)
  · intro hall m hm
    exact hall _ m (mem_swapsOf.1 hm).1 (mem_swapsOf.1 hm).2

/-! ## What the condition says -/

/-- What the condition says of an operation. -/
structure TracksSwaps (o : Op) (r : o.Resp) (w : World) : Prop where
  insert : ∀ m, o = .db (.insert m) → (∀ h x, w.swap h = some x → x.invoiceId ≠ m.invoiceId) ∧
    ¬ swaps.WasCancelled w m.invoiceId
  cancel : ∀ tid c id, (⟨tid, c, o, r⟩ : Entry).invoiceCancelled? = some id →
    o.swapWork = true ∨ w.noPending id = true

theorem tracksSwaps_of_ok {s : Sys} {a : Answers} (hok : tracksSwaps s (.task tid a) = true)
    (htask : ∃ f, s.tasks tid = some ⟨c, .op o f⟩)
    (hp : World.perform tid c o a s.world = .resume r w' sp) : TracksSwaps o r s.world := by
  obtain ⟨f, ht⟩ := htask
  constructor
  · rintro m rfl
    simp only [tracksSwaps, ht, Bool.and_eq_true, List.isEmpty_iff, List.all_eq_true,
      decide_eq_true_eq] at hok
    refine ⟨fun h x hx hid => ?_, fun ⟨e, he, hid⟩ => hok.2 e he hid⟩
    obtain rfl := SwapDb.paymentHash_of_getByPaymentHash hx
    have hmem := mem_swapsOf.2 ⟨hx, hid⟩
    rw [hok.1] at hmem
    exact absurd hmem List.not_mem_nil
  · intro tid' c' id hid
    unfold Entry.invoiceCancelled? at hid
    split at hid
    next about _ hex _ he =>
      obtain ⟨-, -, rfl, hr⟩ := Entry.mk.inj he
      obtain rfl := Option.some.inj hid
      obtain ⟨rfl, -, -⟩ := Outcome.resume.inj hp
      cases about with
      | swap h => exact Or.inl rfl
      | _ =>
        simp only [tracksSwaps, ht, eq_of_heq hr] at hok
        exact Or.inr hok
    next => cases hid

/-! ## One move -/

theorem invoiceId_mono (he : Effect tid c o r w w' sp) {x : SwapMapping}
    (hx : w.swap h = some x) : ∃ y, w'.swap h = some y ∧ y.invoiceId = x.invoiceId := by
  obtain ⟨y, hy, rfl | ⟨st, tx, -, rfl⟩ | ⟨n, tx, -, rfl⟩⟩ := he.swap_cases hx <;>
    exact ⟨_, hy, rfl⟩

/-- Nothing becomes Pending again. -/
theorem notPending_mono (he : Effect tid c o r w w' sp) (hm : Work.Move c l o r l')
    {x : SwapMapping} (hx : w.swap h = some x) (hst : x.status ≠ .pending) :
    ∃ y, w'.swap h = some y ∧ y.status ≠ .pending := by
  obtain ⟨y, hy, rfl | ⟨st, tx, rfl, rfl⟩ | ⟨n, tx, ho, rfl⟩⟩ := he.swap_cases hx
  · exact ⟨y, hy, hst⟩
  · refine ⟨_, hy, ?_⟩
    cases hm with
    | quiet ho | unbuilt ho | given ho => cases ho
    | settle hfinal => rcases hfinal with rfl | rfl <;> exact nofun
    | expire | finish => exact nofun
  · refine ⟨_, hy, ?_⟩
    generalize x.status = st at ho
    subst ho
    cases hm with
    | quiet ho | unbuilt ho | given ho => cases ho
    | win | lose => exact nofun

/-- A row of a cancelled LM invoice was there before the move. -/
theorem swap_of_cancelled (he : Effect tid c o r w w' sp) (hT : TracksSwaps o r w)
    (hc : swaps.WasCancelled w id) {y : SwapMapping} (hy : w'.swap h = some y)
    (hid : y.invoiceId = id) : ∃ x, w.swap h = some x ∧ x.invoiceId = id := by
  rcases hx : w.swap h with _ | x
  · obtain ⟨m, rfl, rfl⟩ := he.swap_of_none hx hy
    rw [← hid] at hc
    exact absurd hc (hT.insert m rfl).2
  · obtain ⟨z, hz, hzid⟩ := invoiceId_mono he hx
    rw [hy] at hz
    obtain rfl := Option.some.inj hz
    exact ⟨x, rfl, hzid.symm.trans hid⟩

theorem noPending_mono (he : Effect tid c o r w w' sp) (hm : Work.Move c l o r l')
    (hT : TracksSwaps o r w) (hc : swaps.WasCancelled w id) (hcl : w.noPending id = true) :
    w'.noPending id = true := by
  rw [noPending_iff] at hcl ⊢
  intro h y hy hid
  obtain ⟨x, hx, hxid⟩ := swap_of_cancelled he hT hc hy hid
  obtain ⟨z, hz, hst⟩ := notPending_mono he hm hx (hcl h x hx hxid)
  rw [hy] at hz
  exact Option.some.inj hz ▸ hst

theorem uniqueInvoice_move (he : Effect tid c o r w w' sp) (hT : TracksSwaps o r w)
    (hU : UniqueInvoice w) : UniqueInvoice w' := by
  -- a row was there before, or it is inserted for an LM invoice that no row has
  have horigin : ∀ {h y}, w'.swap h = some y → (∃ x, w.swap h = some x ∧ y.invoiceId = x.invoiceId) ∨
      ∃ m, o = .db (.insert m) ∧ y.invoiceId = m.invoiceId ∧ y.paymentHash = m.paymentHash := by
    intro h y hy
    rcases hx : w.swap h with _ | x
    · obtain ⟨m, ho, rfl⟩ := he.swap_of_none hx hy
      exact Or.inr ⟨m, ho, rfl, rfl⟩
    · obtain ⟨z, hz, hzid⟩ := invoiceId_mono he hx
      rw [hy] at hz
      exact Or.inl ⟨x, rfl, Option.some.inj hz ▸ hzid⟩
  intro h h' y y' hy hy' hid
  rcases horigin hy with ⟨x, hx, hxid⟩ | ⟨m, rfl, hmid, hmh⟩ <;>
    rcases horigin hy' with ⟨x', hx', hxid'⟩ | ⟨m', ho', hmid', hmh'⟩
  · exact hU h h' x x' hx hx' (hxid.symm.trans (hid.trans hxid'))
  · exact absurd (hxid.symm.trans (hid.trans hmid')) ((hT.insert m' ho').1 h x hx)
  · exact absurd (hxid'.symm.trans (hid.symm.trans hmid)) ((hT.insert m rfl).1 h' x' hx')
  · cases ho'
    rw [← SwapDb.paymentHash_of_getByPaymentHash hy, ← SwapDb.paymentHash_of_getByPaymentHash hy',
      hmh, hmh']

/-- The monitor's record closes the rows of the LM invoice. -/
theorem noPending_of_midway (he : Effect tid c o r w w' sp) (hm : Work.Move c l o r l')
    (hT : TracksSwaps o r w) (hU : UniqueInvoice w) (hC : Cancels w tid c (some l))
    (hmid : swaps.midway? w tid = some id) (ho : o.swapWork = true) : w'.noPending id = true := by
  obtain ⟨m, todo, hl, rfl⟩ := hC.midway id hmid
  obtain rfl := Option.some.inj hl
  obtain ⟨z, hz, hzid⟩ := hC.rows _ rfl m List.mem_cons_self
  rw [noPending_iff]
  intro h y hy hid
  obtain ⟨x, hx, hxid⟩ := swap_of_cancelled he hT (Side.wasCancelled_of_midway? hmid) hy hid
  obtain rfl := hU h m.paymentHash x z hx hz (hxid.trans hzid.symm)
  cases hm with
  | quiet hq => exact absurd ho (by simp [hq])
  | expire =>
    have hrow := he.swap m.paymentHash
    rw [hy, hx] at hrow
    simp only [Op.onSwap, DbCall.onSwap, if_true, Option.map_some] at hrow
    rw [Option.some.inj hrow]
    intro hpending
    cases hpending

theorem snapshot_of_move (hm : Work.Move c l o r l') {m : SwapMapping} (hmem : m ∈ l'.snapshot) :
    m ∈ l.snapshot ∨ ∃ t rows, o = .db (.getExpiredPending t) ∧ HEq r rows ∧
      m ∈ (rows : List SwapMapping) := by
  cases hm with
  | quiet | accepted => exact Or.inl hmem
  | select => exact Or.inr ⟨_, _, rfl, HEq.rfl, hmem⟩
  | unbuilt | refused | expire => exact Or.inl (List.mem_cons_of_mem _ hmem)
  | _ => exact absurd hmem List.not_mem_nil

theorem cancels_move (he : Effect tid c o r w w' sp) (hm : Work.Move c l o r l')
    (hC : Cancels w tid c (some l)) : Cancels w' tid c (some l') where
  monitor m todo hl := by
    obtain rfl := Option.some.inj hl
    cases hm with
    | quiet => exact hC.monitor m todo rfl
    | accepted => rfl
  midway id hmid := by
    cases ho : o.swapWork with
    | true =>
      rw [Side.midway?_of_work he ho] at hmid
      cases hm with
      | quiet hq | unbuilt hq | given hq => exact absurd ho (by simp [hq])
      | accepted => exact ⟨_, _, rfl, Option.some.inj hmid⟩
      | _ => cases hmid
    | false =>
      rw [Side.midway?_of_not_work he ho] at hmid
      obtain ⟨m, todo, hl, hid⟩ := hC.midway id hmid
      obtain rfl := Option.some.inj hl
      cases hm with
      | quiet => exact ⟨m, todo, rfl, hid⟩
      | expire => cases ho
  rows := by
    rintro _ ⟨⟩ m hmem
    have hrow : ∃ x, w.swap m.paymentHash = some x ∧ x.invoiceId = m.invoiceId := by
      rcases snapshot_of_move hm hmem with hold | ⟨t, rows, rfl, hr, hrow⟩
      · exact hC.rows l rfl m hold
      · have hans : r = w.db.getExpiredPending t := he.answered
        rw [← eq_of_heq hr, hans] at hrow
        exact ⟨m, (SwapDb.mem_getExpiredPending.1 hrow).1, rfl⟩
    obtain ⟨x, hx, hid⟩ := hrow
    obtain ⟨y, hy, hyid⟩ := invoiceId_mono he hx
    exact ⟨y, hy, hyid.trans hid⟩

theorem cancels_mono {d : Call} {x : Option Work} (he : Effect tid c o r w w' sp)
    (hne : tid' ≠ tid) (hC : Cancels w tid' d x) : Cancels w' tid' d x where
  monitor := hC.monitor
  midway id hmid := hC.midway id ((Side.midway?_of_ne he hne).symm.trans hmid)
  rows l hl m hmem := by
    obtain ⟨y, hy, hid⟩ := hC.rows l hl m hmem
    obtain ⟨z, hz, hzid⟩ := invoiceId_mono he hy
    exact ⟨z, hz, hzid.trans hid⟩

/-- A task does not end midway. -/
theorem cancels_quit (hC : Cancels w tid c (some l)) (hend : l.rows = []) : Cancels w tid c none where
  monitor _ _ hl := nomatch hl
  midway id hmid := by
    obtain ⟨m, todo, hl, -⟩ := hC.midway id hmid
    obtain rfl := Option.some.inj hl
    cases hend
  rows _ hl := nomatch hl

theorem Cancels.calm {x : Option Work} (hc : Calm w w') (hC : Cancels w tid c x) :
    Cancels w' tid c x where
  monitor := hC.monitor
  midway id hmid := by
    rw [Side.midway?, hc.log] at hmid
    exact hC.midway id hmid
  rows l hl m hmem := by
    rw [hc.swap]
    exact hC.rows l hl m hmem

theorem cancels_start (hnew : ∀ e ∈ w.log, e.tid ≠ tid) :
    Cancels w tid c (some (work.start c)) where
  monitor _ _ hl := nomatch hl
  midway id hmid := by
    rw [Side.midway?_eq_none hnew] at hmid
    cases hmid
  rows := by
    rintro _ ⟨⟩ m hmem
    exact absurd hmem List.not_mem_nil

theorem operator_of_invoiceCancelled (hid : (⟨tid, c, o, r⟩ : Entry).invoiceCancelled? = some id) :
    ∃ about q, o = .operator about q := by
  unfold Entry.invoiceCancelled? at hid
  split at hid
  next he =>
    obtain ⟨-, -, rfl, -⟩ := Entry.mk.inj he
    exact ⟨_, _, rfl⟩
  next => cases hid

theorem followed_swaps_move (he : Effect tid c o r w w' sp) (hm : Work.Move c l o r l')
    (hT : TracksSwaps o r w) (hU : UniqueInvoice w) (hC : Cancels w tid c (some l))
    (hF : swaps.Followed w) : swaps.Followed w' := by
  refine Side.followed_move he (fun id hc hcl => noPending_mono he hm hT hc hcl) (fun id hid => ?_)
    (fun id hmid ho => noPending_of_midway he hm hT hU hC hmid ho) hF
  rcases hT.cancel tid c id hid with ho | hcl
  · exact Or.inr ho
  · obtain ⟨about, q, rfl⟩ := operator_of_invoiceCancelled hid
    refine Or.inl (noPending_iff.2 fun h y hy hyid => ?_)
    exact noPending_iff.1 hcl h y ((he.swap h).symm.trans hy) hyid

/-! ## All runs -/

/-- The swaps with the tasks that cancel them. -/
def cancelling : Discipline Op Op.Resp World Call (Stage × Option Work) :=
  (onramp.refine work).extend (fun w => UniqueInvoice w ∧ swaps.Followed w)
    (fun w tid c l => Cancels w tid c l.2) fun _ _ _ _ => True

theorem followsSwaps_cases {s : Sys} {a : Act} (h : followsSwaps s a = true) :
    tracksSwaps s a = true ∧ swaps.safelyDown s a = true :=
  Bool.and_eq_true_iff.1 h

theorem uniqueInvoice_calm (hc : Calm w w') (hU : UniqueInvoice w) : UniqueInvoice w' := by
  intro h h' x x' hx hx'
  rw [hc.swap] at hx hx'
  exact hU h h' x x' hx hx'

theorem cancelling_sound (cfg : Config) (now : ℤ) :
    cancelling.Sound (relay cfg) (fun s a => followsSwaps s a = true) (World.fresh cfg now) := by
  refine ((onramp_sound cfg now).refine (body_works cfg)).extend (fun _ _ _ => trivial) ?_
  have hstart : ∀ {s : Sys} {w : World} {c : Call},
      ReachableBy cfg now (fun s a => followsSwaps s a = true) s → Calm s.world w →
      Cancels w s.next c (some (work.start c)) := fun hr hc =>
    cancels_start fun e hmem => Nat.ne_of_lt (tid_lt_next_of_calm hr hc e hmem)
  exact {
    symm := fun _ => trivial
    init := ⟨⟨fun _ _ _ _ h => (nomatch h), fun _ h => absurd h List.not_mem_nil⟩,
      cancels_start fun _ h => absurd h List.not_mem_nil⟩
    move := fun turn hp hm => by
      have he := effect_of_perform hp
      have hT := tracksSwaps_of_ok (followsSwaps_cases turn.ok).1 turn.task hp
      obtain ⟨m, m', hl, hW, hl'⟩ := hm.2.cases
      have hC : Cancels _ _ _ _ := turn.owned.2
      rw [hl] at hC
      refine ⟨⟨uniqueInvoice_move he hT turn.shared.2.1,
        followed_swaps_move he hW hT turn.shared.2.1 hC turn.shared.2.2⟩, ?_⟩
      rcases hl' with hl' | ⟨hl', hend⟩ <;> rw [hl']
      · exact cancels_move he hW hC
      · exact cancels_quit (cancels_move he hW hC) hend
    others := fun _ hp _ hne _ _ howned _ =>
      ⟨cancels_mono (effect_of_perform hp) hne howned.2, trivial⟩
    spawned := fun turn hp _ => by
      obtain ⟨k, ht⟩ := turn.task
      refine ⟨cancels_start fun e hmem => ?_, trivial, fun _ _ _ _ _ => trivial⟩
      exact Nat.ne_of_lt (tid_lt_next_of_perform turn.reach ht hp e hmem)
    abort := fun turn hp => by
      obtain rfl := abort_of_perform hp
      exact ⟨⟨uniqueInvoice_calm (calm_restarted _) turn.shared.2.1,
        turn.shared.2.2.calm (calm_restarted _)⟩, hstart turn.reach (calm_restarted _)⟩
    react := fun next hr => by
      have hc := (reaction_of_react hr).calm
      exact ⟨uniqueInvoice_calm hc next.shared.2.1, next.shared.2.2.calm hc⟩
    reactOthers := fun _ hr _ _ _ howned => howned.2.calm (reaction_of_react hr).calm
    reactSpawn := fun next hr =>
      ⟨hstart next.reach (reaction_of_react hr).calm, fun _ _ _ => trivial⟩
    reactRestart := fun next hr => hstart next.reach (reaction_of_react hr).calm }

/-- A task that cancelled an LM invoice with a Pending swap has not ended. -/
theorem cancelled_of_midway {s : Sys} {L : ℕ → Stage × Option Work} {t : Task Op Op.Resp Call}
    (hL : cancelling.Holds s L) (ht : s.tasks tid = some t)
    (hmid : swaps.midway? s.world tid = some id) :
    t.call = .monitorExpiredSwaps ∧ t.rest.ended = false := by
  have hC : Cancels _ _ _ _ := (hL.owned ht).2
  obtain ⟨m, todo, hl, -⟩ := hC.midway id hmid
  exact ⟨hC.monitor m todo hl, Discipline.not_ended_of_refine (hL.keeps ht) hl nofun⟩

/-- Once the task that cancelled an LM invoice is over, no swap of the LM invoice is Pending. -/
theorem noPending_of_cancelled {cfg : Config} {now : ℤ} {s : Sys} {e : Entry}
    (hs : ReachableBy cfg now (fun s a => followsSwaps s a = true) s) (he : e ∈ s.world.log)
    (hid : e.invoiceCancelled? = some id) (hover : finished s e.tid = true) :
    s.world.noPending id = true := by
  have hsound := cancelling_sound cfg now
  obtain ⟨L, hL⟩ := hsound.holds hs
  rcases hL.shared.2.2 e he id hid with hcl | hmid
  · exact hcl
  by_contra hop
  have hpresent : ∃ t, s.tasks e.tid = some t := by
    refine Side.present (fun _ _ hok => (followsSwaps_cases hok).2) rfl ?_ ?_ hs hmid
      (Bool.eq_false_iff.2 hop)
    · intro s tid c o k a r w' sp id hr hok ht hp hc hcl
      obtain ⟨L, hL⟩ := hsound.holds hr
      obtain ⟨l', hm, -⟩ := (hL.keeps ht).move r
      obtain ⟨m, m', -, hW, -⟩ := hm.2.cases
      exact noPending_mono (effect_of_perform hp) hW
        (tracksSwaps_of_ok (followsSwaps_cases hok).1 ⟨k, ht⟩ hp) hc hcl
    · intro s tid t id hr ht hmid _
      obtain ⟨L, hL⟩ := hsound.holds hr
      exact cancelled_of_midway hL ht hmid
  obtain ⟨t, ht⟩ := hpresent
  rw [finished, ht, Option.all_some, (cancelled_of_midway hL ht hmid).2] at hover
  cases hover

end

end Onramp

end LightningRelay
