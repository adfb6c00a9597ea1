import LightningRelay.System

/-!
# One call and the outside

`Visit` is one call of a handler or of a command while no other task is active: the outside answers
its operations one after the other and takes its time, and `trace` is what has happened.  A call may
end with a result, and the handler of a request may also be dropped where it waits (`Visit.Ends`).
-/

set_option autoImplicit false

namespace LightningRelay

open Async

/-- What the outside does to an operation: how it answers, after how many milliseconds, and whether a
submission that it answers with an error was accepted on Cardano all the same. -/
structure Input where
  answers : Answers
  elapsed : ℕ
  landed : Bool

/-- An operation that was performed, with the time at which it began. -/
structure Moment where
  time : ℤ
  landed : Bool
  op : Op
  resp : op.Resp

namespace Moment

/-- What was done. -/
def event (m : Moment) : Sigma Op.Resp := ⟨m.op, m.resp⟩

/-- The time that was read. -/
def reads? : Moment → Option ℤ
  | ⟨_, _, .now, t⟩ => some t
  | _ => none

theorem eq_of_event {m : Moment} {o : Op} {r : o.Resp} (h : m.event = ⟨o, r⟩) :
    m = ⟨m.time, m.landed, o, r⟩ := by
  rcases m with ⟨_, _, _, _⟩
  cases h
  rfl

end Moment

/-- A call in progress: the world, what the outside is going to do, and what has happened, newest
first. -/
structure Visit where
  world : World
  inputs : ℕ → Input
  trace : List Moment

/-- Operations at which a handler waits. -/
def Op.awaited : Op → Bool
  | .operator _ _ | .sleep _ | .persist _ => true
  | _ => false

namespace Visit

/-- A call that begins in the world `w`. -/
def start (w : World) (inputs : ℕ → Input) : Visit := ⟨w, inputs, []⟩

variable (tid : ℕ) (c : Call)

/-- One operation of the call. -/
def act (o : Op) (v : Visit) : Option (o.Resp × Visit) :=
  match World.perform tid c o (v.inputs 0).answers v.world with
  | .resume r w _ =>
    some (r,
      { world := { w with clock := w.clock + (v.inputs 0).elapsed }
        inputs := fun n => v.inputs (n + 1)
        trace := ⟨v.world.clock, (v.inputs 0).landed, o, r⟩ :: v.trace })
  | .abort _ => none

/-- After an operation that was answered with `r` and left the world `w`. -/
def after (v : Visit) (o : Op) (r : o.Resp) (w : World) : Visit where
  world := { w with clock := w.clock + (v.inputs 0).elapsed }
  inputs n := v.inputs (n + 1)
  trace := ⟨v.world.clock, (v.inputs 0).landed, o, r⟩ :: v.trace

/-- After a call of the operator. -/
def told (v : Visit) (about : About) (call : OperatorCall) : Visit :=
  v.after (.operator about call) ((v.inputs 0).answers.operator about call)
    (v.world.note tid c (.operator about call) ((v.inputs 0).answers.operator about call))

/-- After a call of the database. -/
def stored (v : Visit) (call : DbCall) : Visit :=
  v.after (.db call) (v.world.db.call call).1
    ({ v.world with db := (v.world.db.call call).2 }.note tid c (.db call) (v.world.db.call call).1)

/-- After a reading of the clock. -/
def timed (v : Visit) : Visit := v.after .now v.world.clock (v.world.note tid c .now v.world.clock)

section

variable {tid c} {α : Type} {v : Visit}

theorem exec_operator (about : About) (call : OperatorCall)
    (f : Except CardanoError call.Val → Relay α) :
    (operator about call >>= f).exec (act tid c) v =
      (f ((v.inputs 0).answers.operator about call)).exec (act tid c) (v.told tid c about call) := rfl

variable (tid c) in
theorem trace_told {about : About} {call : OperatorCall} {r : Except CardanoError call.Val}
    (h : (v.inputs 0).answers.operator about call = r) :
    (v.told tid c about call).trace =
      ⟨v.world.clock, (v.inputs 0).landed, .operator about call, r⟩ :: v.trace := by
  rw [← h]
  rfl

theorem exec_db (call : DbCall) (f : call.Ret → Relay α) :
    (db call >>= f).exec (act tid c) v =
      (f (v.world.db.call call).1).exec (act tid c) (v.stored tid c call) := rfl

theorem exec_currentTimestampMs (f : ℤ → Relay α) :
    (currentTimestampMs >>= f).exec (act tid c) v =
      (f v.world.clock).exec (act tid c) (v.timed tid c) := rfl

end

/-- What one operation of a call changes. -/
structure Acted (o : Op) (r : o.Resp) (v v' : Visit) : Prop where
  trace : v'.trace = ⟨v.world.clock, (v.inputs 0).landed, o, r⟩ :: v.trace
  swap : ∀ k, v'.world.swap k = o.onSwap k (v.world.swap k)
  clock : v.world.clock ≤ v'.world.clock
  answered : o.Answered v.world r

variable {tid c} {α : Type} {o : Op} {r : o.Resp} {v v' : Visit}

theorem acted_of_act (h : act tid c o v = some (r, v')) : Acted o r v v' := by
  unfold act at h
  split at h
  next r' w sp hp =>
    obtain ⟨rfl, rfl⟩ := Prod.mk.inj (Option.some.inj h)
    have he := effect_of_perform hp
    refine ⟨rfl, he.swap, ?_, he.answered⟩
    change v.world.clock ≤ w.clock + _
    rw [he.clock]
    omega
  next => cases h

/-- The trace of a visit that began at `t₀`: what was done, in the order of time, with readings of the
clock that tell the time. -/
structure Clocked (t₀ : ℤ) (l : List (Sigma Op.Resp)) (v : Visit) : Prop where
  events : v.trace.map Moment.event = l
  sorted : v.trace.Pairwise fun later earlier => earlier.time ≤ later.time
  reads : ∀ m ∈ v.trace, ∀ t, m.reads? = some t → t = m.time
  since : ∀ m ∈ v.trace, t₀ ≤ m.time
  past : ∀ m ∈ v.trace, m.time ≤ v.world.clock
  now : t₀ ≤ v.world.clock

theorem clocked_start {w : World} {inputs : ℕ → Input} : Clocked w.clock [] (.start w inputs) :=
  ⟨rfl, .nil, fun _ hm => absurd hm List.not_mem_nil, fun _ hm => absurd hm List.not_mem_nil,
    fun _ hm => absurd hm List.not_mem_nil, Int.le_refl _⟩

theorem Clocked.act {t₀ : ℤ} {l : List (Sigma Op.Resp)} (h : Clocked t₀ l v)
    (hv : Acted o r v v') : Clocked t₀ (⟨o, r⟩ :: l) v' := by
  constructor
  · rw [hv.trace, List.map_cons, h.events]
    rfl
  · rw [hv.trace]
    exact List.pairwise_cons.2 ⟨h.past, h.sorted⟩
  · rw [hv.trace]
    refine List.forall_mem_cons.2 ⟨fun t ht => ?_, h.reads⟩
    cases o with
    | now => exact (Option.some.inj ht).symm.trans hv.answered
    | _ => cases ht
  · rw [hv.trace]
    exact List.forall_mem_cons.2 ⟨h.now, h.since⟩
  · rw [hv.trace]
    exact List.forall_mem_cons.2 ⟨hv.clock, fun m hm => Int.le_trans (h.past m hm) hv.clock⟩
  · exact Int.le_trans h.now hv.clock

variable (tid c) in
/-- How a request may end: with a response, or because its client disconnects while it waits for an
operation, which the outside may or may not have carried out by then. -/
inductive Ends (p : Relay α) (v : Visit) : Visit → Prop where
  | responded {a : α} {v' : Visit} : Prog.Steps (act tid c) p v (.pure a) v' → Ends p v v'
  | dropped {o : Op} {k : o.Resp → Relay α} {v' : Visit} :
      Prog.Steps (act tid c) p v (.op o k) v' → o.awaited = true → Ends p v v'
  | unheard {o : Op} {k : o.Resp → Relay α} {r : o.Resp} {v' v'' : Visit} :
      Prog.Steps (act tid c) p v (.op o k) v' → o.awaited = true →
      act tid c o v' = some (r, v'') → Ends p v v''

theorem ends_of_exec {p : Relay α} (h : (p.exec (act tid c) v).1.isSome = true) :
    Ends tid c p v (p.exec (act tid c) v).2 := by
  obtain ⟨a, ha⟩ := Option.isSome_iff_exists.1 h
  exact .responded (Prog.steps_of_exec ha)

/-- An operation that is awaited may be answered. -/
theorem exists_resp_of_awaited (h : o.awaited = true) : Nonempty o.Resp := by
  cases o with
  | operator about call => exact ⟨.error ""⟩
  | sleep n => exact ⟨()⟩
  | persist file => exact ⟨()⟩
  | _ => cases h

/-- A call that keeps to a protocol stays in step with its local state. -/
theorem stage_of_steps {τ : Type} {Move : τ → (o : Op) → o.Resp → τ → Prop} {Q : α → τ → Prop}
    {S : τ → Visit → Prop} {p p' : Relay α} {l : τ} (hs : Prog.Steps (act tid c) p v p' v')
    (hp : Follows Move Q p l) (hl : S l v)
    (hstep : ∀ l o r l' v v', S l v → Move l o r l' → Acted o r v v' → S l' v') :
    ∃ l', Follows Move Q p' l' ∧ S l' v' := by
  refine Follows.steps ?_ hs hp hl
  intro l o r l' v v' hl hm ho
  exact hstep l o r l' v v' hl hm (acted_of_act ho)

/-- A request that keeps to a protocol ends in a local state that is in step with the visit: one
where it may respond, or one where it waits, or one that it gets to by waiting. -/
theorem Ends.stage {τ : Type} {Move : τ → (o : Op) → o.Resp → τ → Prop} {Q : α → τ → Prop}
    {S : τ → Visit → Prop} {p : Relay α} {l : τ} {P : τ → Prop}
    (h : Ends tid c p v v') (hp : Follows Move Q p l) (hl : S l v)
    (hstep : ∀ l o r l' v v', S l v → Move l o r l' → Acted o r v v' → S l' v')
    (hend : ∀ a l, Q a l → P l)
    (hwait : ∀ l o r l', Move l o r l' → o.awaited = true → P l ∧ P l') :
    ∃ l', S l' v' ∧ P l' := by
  cases h with
  | responded hs =>
    obtain ⟨l', hf, hl'⟩ := stage_of_steps hs hp hl hstep
    exact ⟨l', hl', hend _ l' hf⟩
  | dropped hs ho =>
    obtain ⟨l', hf, hl'⟩ := stage_of_steps hs hp hl hstep
    obtain ⟨r⟩ := exists_resp_of_awaited ho
    obtain ⟨l'', hm, -⟩ := hf.move r
    exact ⟨l', hl', (hwait _ _ _ _ hm ho).1⟩
  | unheard hs ho ha =>
    obtain ⟨l', hf, hl'⟩ := stage_of_steps hs hp hl hstep
    obtain ⟨l'', hm, -⟩ := hf.move _
    exact ⟨l'', hstep _ _ _ _ _ _ hl' hm (acted_of_act ha), (hwait _ _ _ _ hm ho).2⟩

end Visit

end LightningRelay
