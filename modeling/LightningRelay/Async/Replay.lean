import LightningRelay.Async.Onward
import Mathlib.Data.List.Basic

/-!
# Programs and what is recorded of them

A world may record the operations that are performed in it, with the task and the answer of each.
The record of a task determines how far its program has got, and what the program has returned.

* `Prog.Replays` runs a program along a list of answered operations, and `Prog.replay` is the result
  that it comes to.
* `Reach.replays`: in every state of a run a task is what its record leaves of its program.
* `Reach.exists_turn`: an operation that is recorded was performed in a state of the run, when the
  record was what stands below it.
-/

set_option autoImplicit false

namespace Async

variable {Op : Type} {Resp : Op → Type} {World Call Ans Env α : Type}

/-! ## Replays -/

/-- The program `p`, its operations answered as in the list, oldest first, gets to `p'`. -/
inductive Prog.Replays : Prog Op Resp α → List (Sigma Resp) → Prog Op Resp α → Prop where
  | refl {p : Prog Op Resp α} : Replays p [] p
  | step {o : Op} {k : Resp o → Prog Op Resp α} {r : Resp o} {tr : List (Sigma Resp)}
      {p' : Prog Op Resp α} : Replays (k r) tr p' → Replays (.op o k) (⟨o, r⟩ :: tr) p'

/-- The result of a program whose operations are answered as in the list. -/
def Prog.replay [DecidableEq Op] : Prog Op Resp α → List (Sigma Resp) → Option α
  | .pure a, [] => some a
  | .op o k, ⟨o', r⟩ :: tr => if h : o' = o then replay (k (h ▸ r)) tr else none
  | _, _ => none

theorem Prog.Replays.replay_eq [DecidableEq Op] {p : Prog Op Resp α} {tr : List (Sigma Resp)} {a : α}
    (h : p.Replays tr (.pure a)) : p.replay tr = some a := by
  generalize hq : Prog.pure a = q at h
  induction h with
  | refl =>
    subst hq
    rfl
  | step _ ih =>
    rw [Prog.replay, dif_pos rfl]
    exact ih hq

/-- One more operation at the end. -/
theorem Prog.Replays.snoc {p : Prog Op Resp α} {tr : List (Sigma Resp)} {o : Op}
    {k : Resp o → Prog Op Resp α} (h : p.Replays tr (.op o k)) (r : Resp o) :
    p.Replays (tr ++ [⟨o, r⟩]) (k r) := by
  generalize hq : Prog.op o k = q at h
  induction h with
  | refl =>
    subst hq
    exact .step .refl
  | step _ ih => exact .step (ih hq)

/-- A program whose result is thrown away has come to one. -/
theorem Prog.Replays.of_discard {p : Prog Op Resp α} {tr : List (Sigma Resp)}
    (h : (p >>= fun _ => (pure () : Prog Op Resp Unit)).Replays tr (.pure ())) :
    ∃ a, p.Replays tr (.pure a) := by
  induction p generalizing tr with
  | pure a =>
    generalize hq : ((Prog.pure a : Prog Op Resp α) >>= fun _ => (pure () : Prog Op Resp Unit)) = q at h
    cases h with
    | refl => exact ⟨a, .refl⟩
    | step => cases hq
  | op o k ih =>
    generalize hq : ((Prog.op o k : Prog Op Resp α) >>= fun _ => (pure () : Prog Op Resp Unit)) = q at h
    cases h with
    | refl => cases hq
    | @step _ _ r tr _ h =>
      cases hq
      obtain ⟨a, ha⟩ := ih r h
      exact ⟨a, .step ha⟩

/-- What is proved of the operations of a program holds of every list along which it returns. -/
theorem Follows.replays {Q : α → List (Sigma Resp) → Prop} {p : Prog Op Resp α}
    {l tr : List (Sigma Resp)} {a : α} (h : Follows Recording Q p l)
    (hr : p.Replays tr (.pure a)) : Q a (tr.reverse ++ l) := by
  generalize hq : Prog.pure a = q at hr
  induction hr generalizing l with
  | refl =>
    subst hq
    exact h
  | @step o k r tr _ _ ih =>
    obtain ⟨_, rfl, hk⟩ := h.move r
    rw [List.reverse_cons, List.append_assoc]
    exact ih hk hq

/-- An operation of a task with its answer. -/
structure Recorded (Op : Type) (Resp : Op → Type) (Call : Type) where
  tid : ℕ
  call : Call
  op : Op
  resp : Resp op

/-- The operations of one task, oldest first, in a record that has the newest first. -/
def ownRecord (tid : ℕ) : List (Recorded Op Resp Call) → List (Sigma Resp)
  | [] => []
  | x :: xs => if x.tid = tid then ownRecord tid xs ++ [⟨x.op, x.resp⟩] else ownRecord tid xs

theorem mem_ownRecord {tid : ℕ} {xs : List (Recorded Op Resp Call)} {y : Sigma Resp} :
    y ∈ ownRecord tid xs ↔ ∃ x ∈ xs, x.tid = tid ∧ y = ⟨x.op, x.resp⟩ := by
  induction xs with
  | nil => simp [ownRecord]
  | cons x xs ih =>
    simp only [ownRecord, List.exists_mem_cons_iff]
    split_ifs with hx
    · rw [List.mem_append, ih, List.mem_singleton]
      simp only [hx, true_and]
      exact or_comm
    · rw [ih]
      simp only [hx, false_and, false_or]

theorem ownRecord_eq_nil {tid : ℕ} {xs : List (Recorded Op Resp Call)} (h : ∀ x ∈ xs, x.tid ≠ tid) :
    ownRecord tid xs = [] := by
  refine List.eq_nil_iff_forall_not_mem.2 fun y hy => ?_
  obtain ⟨x, hx, htid, -⟩ := mem_ownRecord.1 hy
  exact h x hx htid

/-- The record below an operation holds what its task did before it. -/
theorem exists_split_of_ownRecord {tid : ℕ} {xs : List (Recorded Op Resp Call)}
    {pre post : List (Sigma Resp)} {y : Sigma Resp} (h : ownRecord tid xs = pre ++ y :: post) :
    ∃ newer x older, xs = newer ++ x :: older ∧ x.tid = tid ∧ y = ⟨x.op, x.resp⟩ ∧
      ownRecord tid older = pre := by
  induction xs generalizing post with
  | nil => exact absurd h.symm (List.append_ne_nil_of_right_ne_nil _ (List.cons_ne_nil _ _))
  | cons x xs ih =>
    rw [ownRecord] at h
    split_ifs at h with hx
    · rcases List.eq_nil_or_concat post with rfl | ⟨post, z, rfl⟩
      · obtain ⟨hpre, hy⟩ := List.append_inj' h rfl
        exact ⟨[], x, xs, rfl, hx, (List.cons.inj hy).1.symm, hpre⟩
      · rw [List.concat_eq_append, ← List.cons_append, ← List.append_assoc] at h
        obtain ⟨newer, x', older, rfl, hx'⟩ := ih (List.append_inj' h rfl).1
        exact ⟨x :: newer, x', older, rfl, hx'⟩
    · obtain ⟨newer, x', older, rfl, hx'⟩ := ih h
      exact ⟨x :: newer, x', older, rfl, hx'⟩

namespace Runtime

variable (R : Runtime Op Resp World Call Ans Env)
  (rec : World → List (Recorded Op Resp Call))

/-- The world records the operations, and nothing else changes the record. -/
structure Records : Prop where
  resume : ∀ {tid c o a w r w' sp}, R.perform tid c o a w = .resume r w' sp →
    rec w' = ⟨tid, c, o, r⟩ :: rec w
  abort : ∀ {tid c o a w w'}, R.perform tid c o a w = .abort w' → rec w' = rec w
  react : ∀ {e w tasks w' ch}, R.react e w tasks = some (w', ch) → rec w' = rec w

/-- Each task is what the record leaves of its program. -/
structure Faithful (s : State Op Resp World Call) : Prop where
  lt : ∀ x ∈ rec s.world, x.tid < s.next
  task : ∀ {tid t}, s.tasks tid = some t →
    (R.body t.call).Replays (ownRecord tid (rec s.world)) t.rest

variable {R rec} {ok : State Op Resp World Call → Action Ans Env → Prop} {w₀ : World}
  {s s' : State Op Resp World Call}

/-- A change of the tasks that starts none. -/
theorem Faithful.of_tasks (h : R.Faithful rec s) {w : World} {tasks : ℕ → Option (Task Op Resp Call)}
    (hrec : rec w = rec s.world) (htasks : ∀ {tid t}, tasks tid = some t → s.tasks tid = some t) :
    R.Faithful rec ⟨w, tasks, s.next⟩ where
  lt x hx := h.lt x (hrec ▸ hx)
  task ht := by
    change (R.body _).Replays (ownRecord _ (rec w)) _
    rw [hrec]
    exact h.task (htasks ht)

theorem Faithful.spawn (h : R.Faithful rec s) (c : Call) : R.Faithful rec (R.spawn s c) where
  lt x hx := Nat.lt_succ_of_lt (h.lt x hx)
  task {tid t} ht := by
    rcases Discipline.update_eq_some ht with ⟨rfl, rfl⟩ | ⟨-, ht⟩
    · change (R.body c).Replays (ownRecord s.next (rec s.world)) _
      rw [ownRecord_eq_nil fun x hx => Nat.ne_of_lt (h.lt x hx)]
      exact .refl
    · exact h.task ht

theorem Faithful.restart (h : R.Faithful rec s) {w : World} (hrec : rec w = rec s.world) :
    R.Faithful rec (R.restart s w) :=
  (h.of_tasks hrec fun ht => by cases ht).spawn R.boot

/-- One operation of a task. -/
theorem Faithful.resume (hR : R.Records rec) (h : R.Faithful rec s) (hf : s.Fresh) {tid : ℕ}
    {c : Call} {o : Op} {k : Resp o → Prog Op Resp Unit} {a : Ans}
    (ht : s.tasks tid = some ⟨c, .op o k⟩) {r : Resp o} {w : World} {sp : Option Call}
    (hp : R.perform tid c o a s.world = .resume r w sp) :
    R.Faithful rec ⟨w, Function.update s.tasks tid (some ⟨c, k r⟩), s.next⟩ := by
  have hrec : rec w = ⟨tid, c, o, r⟩ :: rec s.world := hR.resume hp
  refine ⟨fun x hx => ?_, fun {i t} hi => ?_⟩
  · change x ∈ rec w at hx
    rw [hrec] at hx
    rcases List.mem_cons.1 hx with rfl | hx
    · exact hf.lt_next ht
    · exact h.lt x hx
  · change (R.body t.call).Replays (ownRecord i (rec w)) t.rest
    rw [hrec, ownRecord]
    rcases Discipline.update_eq_some hi with ⟨rfl, rfl⟩ | ⟨hne, hi⟩
    · rw [if_pos rfl]
      exact (h.task ht).snoc r
    · rw [if_neg (Ne.symm hne)]
      exact h.task hi

theorem Reach.faithful (hR : R.Records rec) (h₀ : rec w₀ = []) (hr : R.Reach ok w₀ s) :
    R.Faithful rec s := by
  induction hr with
  | init =>
    have hempty : R.Faithful rec ⟨w₀, fun _ => none, 0⟩ := by
      refine ⟨fun x hx => ?_, fun ht => by cases ht⟩
      change x ∈ rec w₀ at hx
      rw [h₀] at hx
      cases hx
    exact hempty.spawn R.boot
  | @step s s' act hr hok hs ih =>
    cases act with
    | task tid a =>
      obtain ⟨c, o, k, ht, rfl⟩ := step_task_eq_some hs
      rcases hp : R.perform tid c o a s.world with ⟨r, w, sp⟩ | w
      · have hres := ih.resume hR hr.fresh ht hp
        cases sp with
        | none => exact hres
        | some c' => exact hres.spawn c'
      · exact ih.restart (hR.abort hp)
    | env e =>
      obtain ⟨w, ch, he, rfl⟩ := step_env_eq_some hs
      have hrec := hR.react he
      cases ch with
      | keep => exact ih.of_tasks hrec fun ht => ht
      | spawn c => exact (ih.of_tasks hrec fun ht => ht).spawn c
      | drop tid =>
        refine ih.of_tasks hrec fun {i t} ht => ?_
        by_cases hi : i = tid
        · rw [hi, Function.update_self] at ht
          cases ht
        · rwa [Function.update_of_ne hi] at ht
      | restart => exact ih.restart hrec

/-- In every state of a run a task is what its record leaves of its program. -/
theorem Reach.replays (hR : R.Records rec) (h₀ : rec w₀ = []) (hr : R.Reach ok w₀ s) {tid : ℕ}
    {t : Task Op Resp Call} (ht : s.tasks tid = some t) :
    (R.body t.call).Replays (ownRecord tid (rec s.world)) t.rest :=
  (hr.faithful hR h₀).task ht

/-- An operation that is recorded was performed in a state of the run, when the record was what
stands below it. -/
theorem Reach.exists_turn (hR : R.Records rec) (h₀ : rec w₀ = []) (hr : R.Reach ok w₀ s)
    {newer older : List (Recorded Op Resp Call)} {x : Recorded Op Resp Call}
    (hx : rec s.world = newer ++ x :: older) :
    ∃ s₁ s₂ a k sp, R.Reach ok w₀ s₁ ∧ ok s₁ (.task x.tid a) ∧
      s₁.tasks x.tid = some ⟨x.call, .op x.op k⟩ ∧ R.step s₁ (.task x.tid a) = some s₂ ∧
      R.perform x.tid x.call x.op a s₁.world = .resume x.resp s₂.world sp ∧
      rec s₁.world = older ∧ R.Onward ok s₂ s := by
  induction hr generalizing newer with
  | init =>
    change rec w₀ = _ at hx
    rw [h₀] at hx
    exact absurd hx.symm (List.append_ne_nil_of_right_ne_nil _ (List.cons_ne_nil _ _))
  | @step s s' act hr hok hs ih =>
    -- the operation stands below what this step has recorded
    have hold : ∀ {newer}, rec s.world = newer ++ x :: older → ∃ s₁ s₂ a k sp, R.Reach ok w₀ s₁ ∧
        ok s₁ (.task x.tid a) ∧ s₁.tasks x.tid = some ⟨x.call, .op x.op k⟩ ∧
        R.step s₁ (.task x.tid a) = some s₂ ∧
        R.perform x.tid x.call x.op a s₁.world = .resume x.resp s₂.world sp ∧
        rec s₁.world = older ∧ R.Onward ok s₂ s' := by
      intro newer hx
      obtain ⟨s₁, s₂, a, k, sp, h₁, h₂, h₃, h₄, h₅, h₆, hon⟩ := ih hx
      exact ⟨s₁, s₂, a, k, sp, h₁, h₂, h₃, h₄, h₅, h₆, hon.tail ⟨act, hok, hs⟩⟩
    cases act with
    | task tid a =>
      obtain ⟨c, o, k, ht, hs'⟩ := step_task_eq_some hs
      rcases hp : R.perform tid c o a s.world with ⟨r, w, sp⟩ | w
      · have hw : s'.world = w := by
          rw [hs', hp]
          cases sp <;> rfl
        have hrec : rec s'.world = ⟨tid, c, o, r⟩ :: rec s.world := by
          rw [hw]
          exact hR.resume hp
        rw [hrec] at hx
        cases newer with
        | nil =>
          obtain ⟨rfl, hbelow⟩ := List.cons.inj hx
          exact ⟨s, s', a, k, sp, hr, hok, ht, hs, by rw [hp, hw], hbelow, .refl⟩
        | cons y newer => exact hold (List.cons.inj hx).2
      · refine hold (Eq.trans ?_ hx)
        rw [hs', hp]
        exact (hR.abort hp).symm
    | env e =>
      obtain ⟨w, ch, he, hs'⟩ := step_env_eq_some hs
      refine hold (Eq.trans ?_ hx)
      rw [← hR.react he, hs']
      cases ch <;> rfl

end Runtime

end Async
