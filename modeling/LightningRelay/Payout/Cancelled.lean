import LightningRelay.Cancellations
import LightningRelay.Payout.Finality

/-!
# Cancelled offramps

The monitor and the handler of a failed payment cancel an offramp and mark its row Failed, the one
after the cancellation and the other before it; the commands and the startup cancel without a word to
the database.  Where those find the row Completed or Failed, tasks at work are undisturbed, and the
process does not go down between the two steps of the monitor, the row of a cancelled offramp is
Completed or Failed once the task that cancelled it is over (`terminal_of_cancelled`).
-/

set_option autoImplicit false

namespace LightningRelay

open Async

/-- The offramp is Completed or Failed, or there is none. -/
def World.terminal (w : World) (id : ℤ) : Bool :=
  (w.offramp id).all fun r => r.status = .completed || r.status = .failed

namespace Payout

/-- The offramps as a side of the relay. -/
def offramps : Side where
  isWork := Op.offrampWork
  cancelled? := Entry.offrampCancelled?
  closed := World.terminal
  monitor := .monitorExpiredOfframps
  closed_congr id h := by rw [World.terminal, World.offramp, h, World.terminal, World.offramp]

/-- An offramp is inserted under an id that was not cancelled; and only the monitor and the handler of
a failed payment, for their own row, cancel an offramp that is neither Completed nor Failed. -/
def tracksOfframps (s : Sys) : Act → Bool
  | .task tid a =>
    match s.tasks tid with
    | some ⟨_, .op (.db (.insertOfframp m)) _⟩ =>
      s.world.log.all fun e => e.offrampCancelled? ≠ some m.offrampId
    | some ⟨_, .op (.operator (.offramp _) _) _⟩ => true
    | some ⟨_, .op (.operator about (.submitTx ⟨.cancelOfframp id, hex⟩)) _⟩ =>
      match a.operator about (.submitTx ⟨.cancelOfframp id, hex⟩) with
      | .ok _ => s.world.terminal id
      | .error _ => true
    | _ => true
  | .env _ => true

/-- The condition under which the offramps follow the cancellations. -/
def followsOfframps (s : Sys) (a : Act) : Bool :=
  undisturbed s a && tracksOfframps s a && offramps.safelyDown s a

/-- What a task knows of the offramp that it has cancelled. -/
structure Cancels (w : World) (tid : ℕ) (c : Call) (x : Option Work) : Prop where
  monitor : ∀ m todo, x = some (.cancelled m todo) → c = .monitorExpiredOfframps
  midway : ∀ id, offramps.midway? w tid = some id → w.terminal id = true ∨
    ∃ m todo, x = some (.cancelled m todo) ∧ m.offrampId = id

section

variable {tid tid' : ℕ} {c : Call} {l l' : Work} {o : Op} {r : o.Resp} {w w' : World}
  {sp : Option Call} {id : ℤ}

theorem terminal_iff : w.terminal id = true ↔
    ∀ x, w.offramp id = some x → x.status = .completed ∨ x.status = .failed := by
  cases hx : w.offramp id <;> simp [World.terminal, hx]

theorem terminal_of_failed (h : ∃ x, w.offramp id = some x ∧ x.status = .failed) :
    w.terminal id = true := by
  obtain ⟨x, hx, hst⟩ := h
  refine terminal_iff.2 fun y hy => Or.inr ?_
  rw [hx] at hy
  exact Option.some.inj hy ▸ hst

/-! ## What the condition says -/

/-- What the condition says of an operation. -/
structure TracksOfframps (o : Op) (r : o.Resp) (w : World) : Prop where
  insert : ∀ m, o = .db (.insertOfframp m) → ¬ offramps.WasCancelled w m.offrampId
  cancel : ∀ tid c id, (⟨tid, c, o, r⟩ : Entry).offrampCancelled? = some id →
    o.offrampWork = true ∨ w.terminal id = true

theorem tracksOfframps_of_ok {s : Sys} {a : Answers} (hok : tracksOfframps s (.task tid a) = true)
    (htask : ∃ f, s.tasks tid = some ⟨c, .op o f⟩)
    (hp : World.perform tid c o a s.world = .resume r w' sp) : TracksOfframps o r s.world := by
  obtain ⟨f, ht⟩ := htask
  constructor
  · rintro m rfl ⟨e, he, hid⟩
    simp only [tracksOfframps, ht, List.all_eq_true, decide_eq_true_eq] at hok
    exact hok e he hid
  · intro tid' c' id hid
    unfold Entry.offrampCancelled? at hid
    split at hid
    next about _ hex _ he =>
      obtain ⟨-, -, rfl, hr⟩ := Entry.mk.inj he
      obtain rfl := Option.some.inj hid
      obtain ⟨rfl, -, -⟩ := Outcome.resume.inj hp
      cases about with
      | offramp id => exact Or.inl rfl
      | _ =>
        simp only [tracksOfframps, ht, eq_of_heq hr] at hok
        exact Or.inr hok
    next => cases hid

/-! ## One move -/

/-- Rows that are Completed or Failed stay so. -/
theorem terminal_mono (he : Effect tid c o r w w' sp) (hm : Work.Move c l o r l')
    (hE : Engaged w tid l) (hT : TracksOfframps o r w) (hc : offramps.WasCancelled w id)
    (hcl : w.terminal id = true) : w'.terminal id = true := by
  rw [terminal_iff] at hcl ⊢
  intro y hy
  rcases hx : w.offramp id with _ | x
  · obtain ⟨m, ho, rfl⟩ := he.offramp_of_none hx hy
    rw [← SwapDb.offrampId_of_getOfframpById hy] at hc
    exact absurd hc (hT.insert m ho)
  · obtain ⟨z, hz, hst⟩ := terminal_move he hm hE hx (hcl x hx)
    rw [hy] at hz
    obtain rfl := Option.some.inj hz
    rw [hst]
    exact hcl x hx

/-- The monitor's record closes the row. -/
theorem terminal_of_midway (he : Effect tid c o r w w' sp) (hm : Work.Move c l o r l')
    (hE : Engaged w tid l) (hT : TracksOfframps o r w) (hC : Cancels w tid c (some l))
    (hmid : offramps.midway? w tid = some id) (ho : o.offrampWork = true) :
    w'.terminal id = true := by
  rcases hC.midway id hmid with hcl | ⟨m, todo, hl, rfl⟩
  · exact terminal_mono he hm hE hT (Side.wasCancelled_of_midway? hmid) hcl
  obtain rfl := Option.some.inj hl
  obtain rfl := hC.monitor m todo rfl
  cases hm with
  | quiet hq => exact absurd ho (by simp [hq])
  | expire =>
    rw [terminal_iff]
    intro y hy
    have hrow := he.offramp m.offrampId
    simp only [Op.onOfframp, DbCall.onOfframp, if_true] at hrow
    rw [hy] at hrow
    obtain ⟨x, -, rfl⟩ := Option.map_eq_some_iff.1 hrow.symm
    exact Or.inr rfl

theorem cancels_move (he : Effect tid c o r w w' sp) (hm : Work.Move c l o r l')
    (hE : Engaged w tid l) (hT : TracksOfframps o r w) (hC : Cancels w tid c (some l)) :
    Cancels w' tid c (some l') where
  monitor m todo hl := by
    obtain rfl := Option.some.inj hl
    cases hm with
    | quiet | handed => exact hC.monitor m todo rfl
    | accepted => rfl
  midway id hmid := by
    cases ho : o.offrampWork with
    | true =>
      rw [Side.midway?_of_work he ho] at hmid
      cases hm with
      | quiet hq | unbuilt hq | given hq => exact absurd ho (by simp [hq])
      | accepted => exact Or.inr ⟨_, _, rfl, Option.some.inj hmid⟩
      | @withdraw _ _ _ r =>
        rcases r with e | tx
        · cases hmid
        obtain rfl := Option.some.inj hmid
        exact Or.inl (terminal_of_failed (gone_move he .withdraw hE (List.mem_singleton_self _)))
      | _ => cases hmid
    | false =>
      rw [Side.midway?_of_not_work he ho] at hmid
      rcases hC.midway id hmid with hcl | ⟨m, todo, hl, hid⟩
      · exact Or.inl (terminal_mono he hm hE hT (Side.wasCancelled_of_midway? hmid) hcl)
      obtain rfl := Option.some.inj hl
      cases hm with
      | quiet => exact Or.inr ⟨m, todo, rfl, hid⟩
      | handed | expire => cases ho

theorem cancels_mono {d : Call} {x : Option Work} (he : Effect tid c o r w w' sp)
    (hm : Work.Move c l o r l') (hE : Engaged w tid l) (hT : TracksOfframps o r w)
    (hne : tid' ≠ tid) (hC : Cancels w tid' d x) : Cancels w' tid' d x where
  monitor := hC.monitor
  midway id hmid := by
    rw [Side.midway?_of_ne he hne] at hmid
    exact (hC.midway id hmid).imp_left
      (terminal_mono he hm hE hT (Side.wasCancelled_of_midway? hmid))

/-- A task does not end midway. -/
theorem cancels_quit (hC : Cancels w tid c (some l)) (hend : Work.ends c l = true) :
    Cancels w tid c none where
  monitor _ _ hl := nomatch hl
  midway id hmid := by
    rcases hC.midway id hmid with hcl | ⟨m, todo, hl, -⟩
    · exact Or.inl hcl
    · obtain rfl := Option.some.inj hl
      obtain rfl := hC.monitor m todo rfl
      cases hend

theorem Cancels.calm {x : Option Work} (hc : Calm w w') (hC : Cancels w tid c x) :
    Cancels w' tid c x where
  monitor := hC.monitor
  midway id hmid := by
    rw [Side.midway?, hc.log] at hmid
    exact (hC.midway id hmid).imp_left (offramps.closed_congr id hc.db).trans

theorem cancels_start (hnew : ∀ e ∈ w.log, e.tid ≠ tid) :
    Cancels w tid c (some (work.start c)) where
  monitor _ _ hl := nomatch hl
  midway id hmid := by
    rw [Side.midway?_eq_none hnew] at hmid
    cases hmid

theorem operator_of_offrampCancelled
    (hid : (⟨tid, c, o, r⟩ : Entry).offrampCancelled? = some id) :
    ∃ about q, o = .operator about q := by
  unfold Entry.offrampCancelled? at hid
  split at hid
  next he =>
    obtain ⟨-, -, rfl, -⟩ := Entry.mk.inj he
    exact ⟨_, _, rfl⟩
  next => cases hid

theorem followed_offramps_move (he : Effect tid c o r w w' sp) (hm : Work.Move c l o r l')
    (hE : Engaged w tid l) (hT : TracksOfframps o r w) (hC : Cancels w tid c (some l))
    (hF : offramps.Followed w) : offramps.Followed w' := by
  refine Side.followed_move he (fun id hc hcl => terminal_mono he hm hE hT hc hcl)
    (fun id hid => ?_) (fun id hmid ho => terminal_of_midway he hm hE hT hC hmid ho) hF
  rcases hT.cancel tid c id hid with ho | hcl
  · exact Or.inr ho
  · obtain ⟨about, q, rfl⟩ := operator_of_offrampCancelled hid
    refine Or.inl (terminal_iff.2 fun y hy => ?_)
    exact terminal_iff.1 hcl y ((he.offramp id).symm.trans hy)

/-! ## All runs -/

/-- The offramps with the tasks that cancel them. -/
def cancelling (cfg : Config) : Discipline Op Op.Resp World Call (Stage × Option Work) :=
  (finality cfg).extend offramps.Followed (fun w tid c l => Cancels w tid c l.2)
    fun _ _ _ _ => True

theorem followsOfframps_cases {s : Sys} {a : Act} (h : followsOfframps s a = true) :
    undisturbed s a = true ∧ tracksOfframps s a = true ∧ offramps.safelyDown s a = true := by
  simpa only [followsOfframps, Bool.and_eq_true, and_assoc] using h

theorem cancelling_sound (cfg : Config) (now : ℤ) :
    (cancelling cfg).Sound (relay cfg) (fun s a => followsOfframps s a = true)
      (World.fresh cfg now) := by
  refine (finality_sound cfg now).extend (fun _ _ hok => (followsOfframps_cases hok).1) ?_
  have hstart : ∀ {s : Sys} {w : World} {c : Call},
      ReachableBy cfg now (fun s a => followsOfframps s a = true) s → Calm s.world w →
      Cancels w s.next c (some (work.start c)) := fun hr hc =>
    cancels_start fun e hmem => Nat.ne_of_lt (tid_lt_next_of_calm hr hc e hmem)
  exact {
    symm := fun _ => trivial
    init := ⟨fun _ h => absurd h List.not_mem_nil,
      cancels_start fun _ h => absurd h List.not_mem_nil⟩
    move := fun turn hp hm => by
      have he := effect_of_perform hp
      have hT := tracksOfframps_of_ok (followsOfframps_cases turn.ok).2.1 turn.task hp
      obtain ⟨m, m', hl, hW, hl'⟩ := hm.2.cases
      have hE := (turn.owned.1.2 m hl).engaged
      have hC : Cancels _ _ _ _ := turn.owned.2
      rw [hl] at hC
      refine ⟨followed_offramps_move he hW hE hT hC turn.shared.2, ?_⟩
      rcases hl' with hl' | ⟨hl', hend⟩ <;> rw [hl']
      · exact cancels_move he hW hE hT hC
      · exact cancels_quit (cancels_move he hW hE hT hC) hend
    others := fun turn hp hm hne _ _ howned _ => by
      have hT := tracksOfframps_of_ok (followsOfframps_cases turn.ok).2.1 turn.task hp
      obtain ⟨m, m', hl, hW, -⟩ := hm.2.cases
      exact ⟨cancels_mono (effect_of_perform hp) hW (turn.owned.1.2 m hl).engaged hT hne howned.2,
        trivial⟩
    spawned := fun turn hp _ => by
      obtain ⟨k, ht⟩ := turn.task
      refine ⟨cancels_start fun e hmem => ?_, trivial, fun _ _ _ _ _ => trivial⟩
      exact Nat.ne_of_lt (tid_lt_next_of_perform turn.reach ht hp e hmem)
    abort := fun turn hp => by
      obtain rfl := abort_of_perform hp
      exact ⟨turn.shared.2.calm (calm_restarted _), hstart turn.reach (calm_restarted _)⟩
    react := fun next hr => next.shared.2.calm (reaction_of_react hr).calm
    reactOthers := fun _ hr _ _ _ howned => howned.2.calm (reaction_of_react hr).calm
    reactSpawn := fun next hr =>
      ⟨hstart next.reach (reaction_of_react hr).calm, fun _ _ _ => trivial⟩
    reactRestart := fun next hr => hstart next.reach (reaction_of_react hr).calm }

/-- A task that cancelled an offramp that is open is the monitor, and has not ended. -/
theorem cancelled_of_midway {cfg : Config} {s : Sys} {L : ℕ → Stage × Option Work}
    {t : Task Op Op.Resp Call} (hL : (cancelling cfg).Holds s L) (ht : s.tasks tid = some t)
    (hmid : offramps.midway? s.world tid = some id) :
    s.world.terminal id = true ∨ t.call = .monitorExpiredOfframps ∧ t.rest.ended = false := by
  have hC : Cancels _ _ _ _ := (hL.owned ht).2
  refine (hC.midway id hmid).imp_right fun ⟨m, todo, hl, _⟩ => ?_
  exact ⟨hC.monitor m todo hl, Discipline.not_ended_of_refine (hL.keeps ht) hl nofun⟩

/-- Once the task that cancelled an offramp is over, the offramp is Completed or Failed. -/
theorem terminal_of_cancelled {cfg : Config} {now : ℤ} {s : Sys} {e : Entry}
    (hs : ReachableBy cfg now (fun s a => followsOfframps s a = true) s) (he : e ∈ s.world.log)
    (hid : e.offrampCancelled? = some id) (hover : finished s e.tid = true) :
    s.world.terminal id = true := by
  have hsound := cancelling_sound cfg now
  obtain ⟨L, hL⟩ := hsound.holds hs
  rcases hL.shared.2 e he id hid with hcl | hmid
  · exact hcl
  by_contra hop
  have hpresent : ∃ t, s.tasks e.tid = some t := by
    refine Side.present (fun _ _ hok => (followsOfframps_cases hok).2.2) rfl ?_ ?_ hs hmid
      (Bool.eq_false_iff.2 hop)
    · intro s tid c o k a r w' sp id hr hok ht hp hc hcl
      obtain ⟨L, hL⟩ := hsound.holds hr
      obtain ⟨l', hm, -⟩ := (hL.keeps ht).move r
      obtain ⟨m, m', hl, hW, -⟩ := hm.2.cases
      exact terminal_mono (effect_of_perform hp) hW ((hL.owned ht).1.2 m hl).engaged
        (tracksOfframps_of_ok (followsOfframps_cases hok).2.1 ⟨k, ht⟩ hp) hc hcl
    · intro s tid t id hr ht hmid hop
      obtain ⟨L, hL⟩ := hsound.holds hr
      exact (cancelled_of_midway hL ht hmid).resolve_left (Bool.eq_false_iff.1 hop)
  obtain ⟨t, ht⟩ := hpresent
  obtain ⟨-, hrun⟩ := (cancelled_of_midway hL ht hmid).resolve_left hop
  rw [finished, ht, Option.all_some, hrun] at hover
  cases hover

end

end Payout

end LightningRelay
