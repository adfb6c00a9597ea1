import LightningRelay.Async.Runtime
import Mathlib.Data.Int.Notation

/-!
# What tasks hold together

A bound on a number of the world together with the number of tasks that are in certain local states,
such as places that are taken or reserved.  An operation may move one between the two; it may add one
where there is room beside what the other tasks hold (`Bounded`, `Bounded.le`).
-/

set_option autoImplicit false

namespace Async

/-- The count over a range, with one index apart. -/
theorem countP_range_split {p : ℕ → Bool} {i n : ℕ} (h : i < n) : (List.range n).countP p =
    (List.range n).countP (fun j => j ≠ i && p j) + if p i then 1 else 0 := by
  induction n with
  | zero => cases h
  | succ n ih =>
    rw [List.range_succ, List.countP_append, List.countP_append, List.countP_singleton,
      List.countP_singleton]
    rcases Nat.lt_succ_iff_lt_or_eq.1 h with hlt | rfl
    · have hne : n ≠ i := Nat.ne_of_gt hlt
      rw [ih hlt]
      simp only [hne, ne_eq, not_false_eq_true, decide_true, Bool.true_and]
      omega
    · have hrest : (List.range i).countP p = (List.range i).countP fun j => j ≠ i && p j := by
        refine List.countP_congr fun j hj => ?_
        simp [Nat.ne_of_lt (List.mem_range.1 hj)]
      rw [hrest]
      simp

namespace Discipline

variable {Op : Type} {Resp : Op → Type} {World Call Ans Env τ : Type}

/-- How many tasks are in a local state with the property. -/
def load (s : State Op Resp World Call) (L : ℕ → τ) (holds : τ → Bool) : ℕ :=
  (List.range s.next).countP fun tid => (s.tasks tid).isSome && holds (L tid)

/-- How many other tasks are. -/
def loadBeside (s : State Op Resp World Call) (L : ℕ → τ) (holds : τ → Bool) (tid : ℕ) : ℕ :=
  (List.range s.next).countP fun i => i ≠ tid && ((s.tasks i).isSome && holds (L i))

variable (D : Discipline Op Resp World Call τ) (R : Runtime Op Resp World Call Ans Env)
  (ok : State Op Resp World Call → Action Ans Env → Prop) (w₀ : World)

/-- What has to be checked of a bound: a task that starts holds nothing, and no operation exceeds the
bound with what the other tasks hold. -/
structure Bounded (holds : τ → Bool) (measure : World → ℤ) (bound : ℤ) : Prop where
  start : ∀ c, holds (D.start c) = false
  init : measure w₀ ≤ bound
  move : ∀ {s L tid c o a k r w sp l'}, R.Reach ok w₀ s → D.Holds s L → ok s (.task tid a) →
    s.tasks tid = some ⟨c, .op o k⟩ → R.perform tid c o a s.world = .resume r w sp →
    D.Move c (L tid) o r l' →
    measure s.world + (loadBeside s L holds tid + if holds (L tid) then 1 else 0 : ℕ) ≤ bound →
    measure w + (loadBeside s L holds tid + if holds l' then 1 else 0 : ℕ) ≤ bound
  abort : ∀ {tid c o a w w'}, R.perform tid c o a w = .abort w' → measure w' ≤ measure w
  react : ∀ {e w w' tasks ch}, R.react e w tasks = some (w', ch) → measure w' ≤ measure w

variable {D R ok w₀} {s : State Op Resp World Call} {L : ℕ → τ} {holds : τ → Bool}
  {measure : World → ℤ} {bound : ℤ}

/-- What a task holds is part of the load. -/
theorem load_eq {tid : ℕ} {t : Task Op Resp Call} (hf : s.Fresh) (ht : s.tasks tid = some t) :
    load s L holds = loadBeside s L holds tid + if holds (L tid) then 1 else 0 := by
  rw [load, countP_range_split (hf.lt_next ht), loadBeside, ht]
  rfl

/-- A task that starts adds nothing. -/
theorem load_spawn {c : Call} (hstart : holds (D.start c) = false) :
    load (R.spawn s c) (Function.update L s.next (D.start c)) holds = load s L holds := by
  change (List.range (s.next + 1)).countP _ = _
  rw [List.range_succ, List.countP_append, List.countP_singleton, Function.update_self, hstart,
    Bool.and_false, if_neg Bool.false_ne_true, Nat.add_zero]
  refine List.countP_congr fun i hi => ?_
  have hne : i ≠ s.next := Nat.ne_of_lt (List.mem_range.1 hi)
  simp only [Runtime.spawn, Function.update_of_ne hne]

theorem load_restart {w : World} (hstart : holds (D.start R.boot) = false) :
    load (R.restart s w) (fun _ => D.start R.boot) holds = 0 := by
  refine List.countP_eq_zero.2 fun i _ => ?_
  rw [hstart, Bool.and_false]
  exact Bool.false_ne_true

/-- The tasks beside one that has moved hold what they held. -/
theorem load_resume (hf : s.Fresh) {tid : ℕ} {t t' : Task Op Resp Call} (ht : s.tasks tid = some t)
    {w : World} {l' : τ} :
    load ⟨w, Function.update s.tasks tid (some t'), s.next⟩ (Function.update L tid l') holds =
      loadBeside s L holds tid + if holds l' then 1 else 0 := by
  rw [load, countP_range_split (hf.lt_next ht)]
  simp only [Function.update_self, Option.isSome_some, Bool.true_and, loadBeside]
  congr 1
  refine List.countP_congr fun i _ => ?_
  by_cases hi : i = tid
  · simp [hi]
  · simp only [Function.update_of_ne hi]

/-- A task that is dropped holds nothing any more. -/
theorem load_drop_le {tid : ℕ} {w : World} :
    load ⟨w, Function.update s.tasks tid none, s.next⟩ L holds ≤ load s L holds := by
  refine List.countP_mono_left fun i _ hi => ?_
  by_cases he : i = tid
  · subst he
    simp only [Function.update_self, Option.isSome_none, Bool.false_and, Bool.false_eq_true] at hi
  · simpa only [Function.update_of_ne he] using hi

/-- An operation that a task performs keeps the bound. -/
theorem Bounded.resume (hB : D.Bounded R ok w₀ holds measure bound) {tid : ℕ} {c : Call} {o : Op}
    {k : Resp o → Prog Op Resp Unit} {a : Ans} {r : Resp o} {w : World} {sp : Option Call} {l' : τ}
    (hr : R.Reach ok w₀ s) (hL : D.Holds s L) (hJ : measure s.world + load s L holds ≤ bound)
    (hok : ok s (.task tid a)) (ht : s.tasks tid = some ⟨c, .op o k⟩)
    (hp : R.perform tid c o a s.world = .resume r w sp) (hm : D.Move c (L tid) o r l') :
    measure (R.settle s tid c k (.resume r w sp)).world +
      load (R.settle s tid c k (.resume r w sp)) (D.advance s L tid l' sp) holds ≤ bound := by
  rw [load_eq hr.fresh ht] at hJ
  have hnext : measure w + load (⟨w, Function.update s.tasks tid (some ⟨c, k r⟩), s.next⟩ :
      State Op Resp World Call) (Function.update L tid l') holds ≤ bound := by
    rw [load_resume hr.fresh ht]
    exact hB.move hr hL hok ht hp hm hJ
  cases sp with
  | none => exact hnext
  | some c' =>
    rw [← load_spawn (D := D) (R := R) (hB.start c')] at hnext
    exact hnext

/-- What happens outside the tasks does. -/
theorem Bounded.change (hB : D.Bounded R ok w₀ holds measure bound) {e : Env} {w : World}
    {ch : Change Call} (hJ : measure s.world + load s L holds ≤ bound)
    (he : R.react e s.world s.tasks = some (w, ch)) (hch : ch ≠ .restart) :
    measure (R.change s w ch).world + load (R.change s w ch) (D.adapt s L ch) holds ≤ bound := by
  have hkeep : measure w + load (⟨w, s.tasks, s.next⟩ : State Op Resp World Call) L holds ≤ bound :=
    Int.le_trans (Int.add_le_add_right (hB.react he) _) hJ
  cases ch with
  | keep => exact hkeep
  | spawn c =>
    rw [← load_spawn (D := D) (R := R) (hB.start c)] at hkeep
    exact hkeep
  | drop tid =>
    have hdrop : load ⟨w, Function.update s.tasks tid none, s.next⟩ L holds ≤ load s L holds :=
      load_drop_le
    exact Int.le_trans (Int.add_le_add_left (Int.ofNat_le.2 hdrop) _) hkeep
  | restart => exact absurd rfl hch

/-- After a restart nothing is held. -/
theorem Bounded.restart (hB : D.Bounded R ok w₀ holds measure bound) {w : World}
    (hw : measure w ≤ bound) :
    measure w + load (R.restart s w) (fun _ => D.start R.boot) holds ≤ bound := by
  rw [load_restart (hB.start _)]
  omega

/-- The world and what the tasks hold stay within the bound together. -/
theorem Bounded.le (hS : D.Sound R ok w₀) (hB : D.Bounded R ok w₀ holds measure bound)
    (hr : R.Reach ok w₀ s) : measure s.world ≤ bound := by
  have hinduct : ∃ L, D.Holds s L ∧ measure s.world + load s L holds ≤ bound := by
    refine hS.induct (J := fun s L => measure s.world + load s L holds ≤ bound) ?_ ?_ ?_ ?_ ?_ hr
    · exact hB.restart (s := ⟨w₀, fun _ => none, 0⟩) hB.init
    · exact fun hr hL hJ hok ht hp hm => hB.resume hr hL hJ hok ht hp hm
    · intro s L tid c o k a w _ _ hJ _ _ hp
      have hle := hB.abort hp
      exact hB.restart (show measure w ≤ bound by omega)
    · exact fun _ _ hJ _ he hch => hB.change hJ he hch
    · intro s L e w _ _ hJ _ he
      have hle := hB.react he
      exact hB.restart (show measure w ≤ bound by omega)
  obtain ⟨L, -, hle⟩ := hinduct
  omega

end Discipline

end Async
