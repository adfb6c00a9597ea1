import LightningRelay.Async.Runtime

/-!
# Operations that end the process

`Follows` says nothing about an operation without answers, since no program goes on after it.  `Safe`
does: in every local state that the answers lead to, the next operation is one that is allowed there,
whether it has answers or not.

* `Runtime.Reach.always`: what no step takes from the world holds in every run.
* `Runtime.Reach.each`: what each task keeps up with its own steps, and no other step takes from it,
  holds of every task in every run.
* `Runtime.Reach.ends`: a task that is never at an operation that ends the process, left alone, comes
  to its end.
-/

set_option autoImplicit false

namespace Async

/-! ## Safe programs -/

section Safe

variable {Op : Type} {Resp : Op → Type} {α β τ : Type}

/-- From the local state `l`, which each answer takes on by `next`, the program performs only
operations that are allowed where it stands, and ends with a result and a local state that satisfy
`Q`. -/
def Safe (Allowed : τ → Op → Prop) (next : τ → (o : Op) → Resp o → τ) (Q : α → τ → Prop) :
    Prog Op Resp α → τ → Prop
  | .pure a, l => Q a l
  | .op o k, l => Allowed l o ∧ ∀ r, Safe Allowed next Q (k r) (next l o r)

variable {Allowed : τ → Op → Prop} {next : τ → (o : Op) → Resp o → τ} {Q : α → τ → Prop} {l : τ}

/-- One operation and what follows it. -/
theorem safe_perform {o : Op} {f : Resp o → Prog Op Resp α} (ho : Allowed l o)
    (hf : ∀ r, Safe Allowed next Q (f r) (next l o r)) :
    Safe Allowed next Q (Prog.perform o >>= f) l := ⟨ho, hf⟩

theorem Safe.mono {Q' : α → τ → Prop} {p : Prog Op Resp α} (h : Safe Allowed next Q p l)
    (hQ : ∀ a l', Q a l' → Q' a l') : Safe Allowed next Q' p l := by
  induction p generalizing l with
  | pure a => exact hQ a l h
  | op o k ih => exact ⟨h.1, fun r => ih r (h.2 r)⟩

theorem Safe.bind {Q' : β → τ → Prop} {p : Prog Op Resp α} {f : α → Prog Op Resp β}
    (h : Safe Allowed next Q p l) (hf : ∀ a l', Q a l' → Safe Allowed next Q' (f a) l') :
    Safe Allowed next Q' (p >>= f) l := by
  induction p generalizing l with
  | pure a => exact hf a l h
  | op o k ih => exact ⟨h.1, fun r => ih r (h.2 r)⟩

/-! ### Programs that leave the local state alone -/

/-- Every operation of the program satisfies `P`, also one without answers. -/
def Prog.All (P : Op → Prop) (p : Prog Op Resp α) : Prop :=
  Safe (fun (_ : Unit) o => P o) (fun _ _ _ => ()) (fun _ _ => True) p ()

variable {P : Op → Prop}

theorem all_perform {o : Op} {f : Resp o → Prog Op Resp α} (ho : P o) (hf : ∀ r, (f r).All P) :
    (Prog.perform o >>= f).All P := ⟨ho, hf⟩

/-- An operation at the end of a program. -/
theorem all_last {o : Op} (ho : P o) : (Prog.perform o : Prog Op Resp _).All P :=
  ⟨ho, fun _ => trivial⟩

theorem Prog.All.bind {p : Prog Op Resp α} {f : α → Prog Op Resp β} (h : p.All P)
    (hf : ∀ a, (f a).All P) : (p >>= f).All P :=
  Safe.bind h fun a _ _ => hf a

/-- A program whose operations are all allowed and leave the local state as it is. -/
theorem Prog.All.safe {p : Prog Op Resp α} (h : p.All P) (ho : ∀ o, P o → Allowed l o)
    (hnext : ∀ o r, P o → next l o r = l) : Safe Allowed next (fun _ l' => l' = l) p l := by
  induction p with
  | pure a => exact rfl
  | op o k ih =>
    refine ⟨ho o h.1, fun r => ?_⟩
    rw [hnext o r h.1]
    exact ih r (h.2 r)

end Safe

/-! ## Every task of every run -/

namespace Runtime

variable {Op : Type} {Resp : Op → Type} {World Call Ans Env : Type}
  {R : Runtime Op Resp World Call Ans Env}

section

variable {ok : State Op Resp World Call → Action Ans Env → Prop} {w₀ : World}
  {s : State Op Resp World Call} {I : World → Task Op Resp Call → Prop}

/-- What holds of the world at the start and is kept by every operation, by every abort and by the
environment. -/
theorem Reach.always {J : World → Prop} (hinit : J w₀)
    (hmove : ∀ {tid c o a w r w' sp}, R.perform tid c o a w = .resume r w' sp → J w → J w')
    (habort : ∀ {tid c o a w w'}, R.perform tid c o a w = .abort w' → J w → J w')
    (hreact : ∀ {e w tasks w' ch}, R.react e w tasks = some (w', ch) → J w → J w')
    (h : R.Reach ok w₀ s) : J s.world := by
  induction h with
  | init => exact hinit
  | @step s s' act _ _ hs ih =>
    cases act with
    | task tid a =>
      obtain ⟨c, o, k, -, rfl⟩ := step_task_eq_some hs
      rcases hp : R.perform tid c o a s.world with ⟨r, w, sp⟩ | w
      · cases sp <;> exact hmove hp ih
      · exact habort hp ih
    | env e =>
      obtain ⟨w, ch, he, rfl⟩ := step_env_eq_some hs
      cases ch <;> exact hreact he ih

/-- A task that is started has `I`, and so have those that had it. -/
theorem each_spawn (hstart : ∀ w c, I w ⟨c, R.body c⟩)
    (h : ∀ {tid t}, s.tasks tid = some t → I s.world t) (c : Call) {tid : ℕ} {t : Task Op Resp Call}
    (ht : (R.spawn s c).tasks tid = some t) : I (R.spawn s c).world t := by
  rcases Discipline.update_eq_some ht with ⟨-, rfl⟩ | ⟨-, ht⟩
  · exact hstart s.world c
  · exact h ht

/-- What every task has at its start, keeps up with its own steps, and does not lose by the steps of
the others and of the environment. -/
theorem Reach.each (hstart : ∀ w c, I w ⟨c, R.body c⟩)
    (hmove : ∀ {s tid c o k a r w sp}, ok s (.task tid a) → s.tasks tid = some ⟨c, .op o k⟩ →
      R.perform tid c o a s.world = .resume r w sp → I s.world ⟨c, .op o k⟩ → I w ⟨c, k r⟩)
    (hother : ∀ {tid c o a w r w' sp t}, R.perform tid c o a w = .resume r w' sp → I w t → I w' t)
    (hreact : ∀ {e w tasks w' ch t}, R.react e w tasks = some (w', ch) → I w t → I w' t)
    (h : R.Reach ok w₀ s) {tid : ℕ} {t : Task Op Resp Call} (ht : s.tasks tid = some t) :
    I s.world t := by
  -- after a restart there is only the boot task
  have hrestart : ∀ {s : State Op Resp World Call} {w tid t},
      (R.restart s w).tasks tid = some t → I w t := by
    intro s w tid t ht
    exact each_spawn (s := ⟨w, fun _ => none, s.next⟩) hstart (fun h => nomatch h) R.boot ht
  induction h generalizing tid t with
  | init => exact hrestart (s := ⟨w₀, fun _ => none, 0⟩) ht
  | @step s s' act _ hok hs ih =>
    cases act with
    | task i a =>
      obtain ⟨c, o, k, hi, rfl⟩ := step_task_eq_some hs
      rcases hp : R.perform i c o a s.world with ⟨r, w, sp⟩ | w
      · rw [hp] at ht
        have hset : ∀ {tid t}, Function.update s.tasks i (some ⟨c, k r⟩) tid = some t → I w t := by
          intro tid t ht
          rcases Discipline.update_eq_some ht with ⟨-, rfl⟩ | ⟨-, ht⟩
          · exact hmove hok hi hp (ih hi)
          · exact hother hp (ih ht)
        cases sp with
        | none => exact hset ht
        | some c' => exact each_spawn hstart (s := ⟨w, _, s.next⟩) hset c' ht
      · rw [hp] at ht
        exact hrestart ht
    | env e =>
      obtain ⟨w, ch, he, rfl⟩ := step_env_eq_some hs
      have hkeep : ∀ {tid t}, s.tasks tid = some t → I w t := fun ht => hreact he (ih ht)
      cases ch with
      | keep => exact hkeep ht
      | spawn c => exact each_spawn (s := ⟨w, s.tasks, s.next⟩) hstart hkeep c ht
      | drop i =>
        have ht : Function.update s.tasks i none tid = some t := ht
        by_cases hi : tid = i
        · rw [hi, Function.update_self] at ht
          cases ht
        · rw [Function.update_of_ne hi] at ht
          exact hkeep ht
      | restart => exact hrestart ht

end

/-- The next operations of a task, each with the answers that are its turn. -/
def turnsOf (tid : ℕ) (answers : ℕ → Ans) (n : ℕ) : List (Action Ans Env) :=
  (List.range n).map fun i => .task tid (answers i)

theorem turnsOf_succ (tid : ℕ) (answers : ℕ → Ans) (n : ℕ) :
    (turnsOf tid answers (n + 1) : List (Action Ans Env)) =
      .task tid (answers 0) :: turnsOf tid (fun i => answers (i + 1)) n := by
  simp [turnsOf, List.range_succ_eq_map, Function.comp_def]

/-- A task with a call in `p`, of which none is ever about to end the process, comes to its end when
it is left alone, or to a step that does not meet the condition. -/
theorem Reach.ends {chk : State Op Resp World Call → Action Ans Env → Bool} {w₀ : World}
    {p : Call → Prop}
    (hresume : ∀ {s tid c o k a w}, R.Reach (fun s a => chk s a = true) w₀ s →
      s.tasks tid = some ⟨c, .op o k⟩ → p c → R.perform tid c o a s.world ≠ .abort w)
    {s : State Op Resp World Call} (hs : R.Reach (fun s a => chk s a = true) w₀ s) {tid : ℕ}
    {t : Task Op Resp Call} (ht : s.tasks tid = some t) (hp : p t.call) (answers : ℕ → Ans) :
    ∃ n s', R.run chk s (turnsOf tid answers n) = some s' ∧
      ((∃ t', s'.tasks tid = some t' ∧ t'.rest.ended = true) ∨
        chk s' (.task tid (answers n)) = false) := by
  obtain ⟨c, rest⟩ := t
  induction rest generalizing s answers with
  | pure a => exact ⟨0, s, rfl, Or.inl ⟨_, ht, rfl⟩⟩
  | op o k ih =>
    by_cases hchk : chk s (.task tid (answers 0)) = true
    · rcases hperf : R.perform tid c o (answers 0) s.world with ⟨r, w, sp⟩ | w
      · have hstep : R.step s (.task tid (answers 0)) =
            some (R.spawn? ⟨w, Function.update s.tasks tid (some ⟨c, k r⟩), s.next⟩ sp) := by
          simp only [Runtime.step, ht, settle, hperf]
        -- a task that is started meanwhile has another id
        have hnext : (R.spawn? ⟨w, Function.update s.tasks tid (some ⟨c, k r⟩), s.next⟩ sp).tasks
            tid = some ⟨c, k r⟩ := by
          cases sp with
          | none => exact Function.update_self ..
          | some c' =>
            have hne : tid ≠ s.next := Nat.ne_of_lt (hs.fresh.lt_next ht)
            exact (Function.update_of_ne hne ..).trans (Function.update_self ..)
        obtain ⟨n, s', hrun, hend⟩ :=
          ih r (.step hs hchk hstep) (fun i => answers (i + 1)) hnext hp
        refine ⟨n + 1, s', ?_, hend⟩
        rw [turnsOf_succ, run, if_pos hchk, hstep]
        exact hrun
      · exact absurd hperf (hresume hs ht hp)
    · exact ⟨0, s, rfl, Or.inr (Bool.eq_false_iff.2 hchk)⟩

end Runtime

end Async
