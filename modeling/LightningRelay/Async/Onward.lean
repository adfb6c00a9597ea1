import LightningRelay.Async.Runtime
import Mathlib.Logic.Relation

/-!
# From one state of a run to a later one

`Reach` says which states a run gets to; `Onward` relates two states of one run.  What every step
keeps, in states that a run reaches, holds from then on (`Onward.keep`), and a view of the state that
every step moves along a preorder only moves along it (`Onward.along`).
-/

set_option autoImplicit false

namespace Async

namespace Runtime

variable {Op : Type} {Resp : Op → Type} {World Call Ans Env : Type}
  {R : Runtime Op Resp World Call Ans Env}
  {ok : State Op Resp World Call → Action Ans Env → Prop} {w : World}
  {s s' : State Op Resp World Call}

variable (R ok) in
/-- The run goes on from `s` to `s'` by steps that all meet the condition `ok`. -/
def Onward : State Op Resp World Call → State Op Resp World Call → Prop :=
  Relation.ReflTransGen fun s s' => ∃ a, ok s a ∧ R.step s a = some s'

theorem Reach.onward (h : R.Reach ok w s) (hon : R.Onward ok s s') : R.Reach ok w s' := by
  induction hon with
  | refl => exact h
  | tail _ hstep ih =>
    obtain ⟨a, hok, hs⟩ := hstep
    exact .step ih hok hs

/-- What every step keeps holds from then on. -/
theorem Onward.keep {P : State Op Resp World Call → Prop} (hon : R.Onward ok s s')
    (h : R.Reach ok w s) (hP : P s)
    (hstep : ∀ {x y a}, R.Reach ok w x → ok x a → R.step x a = some y → P x → P y) : P s' := by
  induction hon with
  | refl => exact hP
  | tail hon hs ih =>
    obtain ⟨a, hok, hs⟩ := hs
    exact hstep (h.onward hon) hok hs ih

/-- A view that every step moves along a preorder only moves along it. -/
theorem Onward.along {V : Type} {T : V → V → Prop} (view : State Op Resp World Call → V)
    (hrefl : ∀ v, T v v) (htrans : ∀ {u v v'}, T u v → T v v' → T u v')
    (hon : R.Onward ok s s') (h : R.Reach ok w s)
    (hstep : ∀ {x y a}, R.Reach ok w x → ok x a → R.step x a = some y → T (view x) (view y)) :
    T (view s) (view s') :=
  hon.keep (P := fun x => T (view s) (view x)) h (hrefl _) fun hx hok hs hle =>
    htrans hle (hstep hx hok hs)

theorem Onward.mono {ok' : State Op Resp World Call → Action Ans Env → Prop}
    (hon : R.Onward ok s s') (hok : ∀ s a, ok s a → ok' s a) : R.Onward ok' s s' := by
  induction hon with
  | refl => exact .refl
  | tail _ hstep ih =>
    obtain ⟨a, ha, hs⟩ := hstep
    exact ih.tail ⟨a, hok _ _ ha, hs⟩

section

variable {chk : State Op Resp World Call → Action Ans Env → Bool}

theorem onward_of_run {as : List (Action Ans Env)} (hr : R.run chk s as = some s') :
    R.Onward (fun s a => chk s a = true) s s' := by
  induction as generalizing s with
  | nil =>
    obtain rfl := Option.some.inj hr
    exact .refl
  | cons a as ih =>
    simp only [run] at hr
    split_ifs at hr with ha
    obtain ⟨s₁, h₁, hr⟩ := Option.bind_eq_some_iff.1 hr
    exact .head ⟨a, ha, h₁⟩ (ih hr)

/-- What is seen in the middle and at the end of a run holds of two states of it. -/
theorem exists_onward_of_run {as bs : List (Action Ans Env)}
    {p : State Op Resp World Call → State Op Resp World Call → Bool}
    (h : ((R.run chk (R.initial w) as).any fun s => (R.run chk s bs).any (p s)) = true) :
    ∃ s s', R.Reach (fun s a => chk s a = true) w s ∧ R.Onward (fun s a => chk s a = true) s s' ∧
      p s s' = true := by
  obtain ⟨s, hs, hp⟩ := exists_reach_of_run h
  obtain ⟨s', hs', hp⟩ := (Option.any_eq_true _ _).1 hp
  exact ⟨s, s', hs, onward_of_run hs', hp⟩

end

end Runtime

end Async
