import LightningRelay.Async.Prog

/-!
# Programs that may crash

A program that runs alone may stop after any of its operations (`crashAt`): because the machine fails,
or because an operation is refused.  `Secures` is a triple for such runs, from one world: `I` holds in
every world that a crash can leave, `Q` holds of the result and of the last world, and under the
assumption `T` no operation is refused.
-/

set_option autoImplicit false

namespace Async.Prog

variable {Op : Type} {Resp : Op → Type} {α β γ World : Type}

section

variable {act : (o : Op) → World → Option (Resp o × World)} {w w' : World}

/-- An operation at the end of a program. -/
theorem exec_last {o : Op} {r : Resp o} (h : act o w = some (r, w')) :
    (perform o : Prog Op Resp (Resp o)).exec act w = (some r, w') := by
  rw [perform, exec, h]
  rfl

/-- A run that a refused operation ends does not get to what follows. -/
theorem exec_bind_refused {p : Prog Op Resp α} (f : α → Prog Op Resp β)
    (h : p.exec act w = (none, w')) : (p >>= f).exec act w = (none, w') := by
  induction p generalizing w with
  | pure b => cases h
  | op o k ih =>
    change exec act (.op o fun r => (k r).bind f) w = _
    simp only [exec] at h ⊢
    rcases ho : act o w with _ | ⟨r, w₁⟩
    · rw [ho] at h
      exact Prod.ext rfl (Prod.mk.inj h).2
    · rw [ho] at h
      exact ih r h

end

/-- The world after at most `n` operations of a program. -/
def crashAt (act : (o : Op) → World → Option (Resp o × World)) :
    ℕ → Prog Op Resp α → World → World
  | 0, _, w => w
  | _ + 1, .pure _, w => w
  | n + 1, .op o k, w =>
    match act o w with
    | none => w
    | some (r, w') => crashAt act n (k r) w'

/-- See the head of the file. -/
def Secures (act : (o : Op) → World → Option (Resp o × World)) (T : Prop) (I : World → Prop)
    (Q : α → World → Prop) : Prog Op Resp α → World → Prop
  | .pure a, w => I w ∧ Q a w
  | .op o k, w => I w ∧ (T → (act o w).isSome) ∧
      ∀ r w', act o w = some (r, w') → Secures act T I Q (k r) w'

variable {act : (o : Op) → World → Option (Resp o × World)} {T : Prop} {I : World → Prop}
  {Q : α → World → Prop} {w : World}

theorem secures_pure {a : α} (hI : I w) (hQ : Q a w) : Secures act T I Q (pure a) w := ⟨hI, hQ⟩

/-- One operation and what follows it. -/
theorem secures_perform {o : Op} {f : Resp o → Prog Op Resp α} (hI : I w)
    (hT : T → (act o w).isSome)
    (h : ∀ r w', act o w = some (r, w') → Secures act T I Q (f r) w') :
    Secures act T I Q (perform o >>= f) w := ⟨hI, hT, h⟩

/-- One operation whose outcome is known. -/
theorem secures_step {o : Op} {r : Resp o} {w' : World} {f : Resp o → Prog Op Resp α} (hI : I w)
    (ho : act o w = some (r, w')) (h : Secures act T I Q (f r) w') :
    Secures act T I Q (perform o >>= f) w := by
  refine secures_perform hI (fun _ => by rw [ho]; rfl) fun r' w₁ h₁ => ?_
  obtain ⟨rfl, rfl⟩ := Prod.mk.inj (Option.some.inj (ho.symm.trans h₁))
  exact h

/-- An operation at the end of a program. -/
theorem secures_last {o : Op} {r : Resp o} {w' : World} {Q : Resp o → World → Prop} (hI : I w)
    (ho : act o w = some (r, w')) (hI' : I w') (hQ : Q r w') :
    Secures act T I Q (perform o) w := by
  refine ⟨hI, fun _ => by rw [ho]; rfl, fun r' w₁ h₁ => ?_⟩
  obtain ⟨rfl, rfl⟩ := Prod.mk.inj (Option.some.inj (ho.symm.trans h₁))
  exact ⟨hI', hQ⟩

/-- An operation that is refused, where `T` excludes it. -/
theorem secures_refused {o : Op} {f : Resp o → Prog Op Resp α} (hI : I w) (ho : act o w = none)
    (hT : ¬T) : Secures act T I Q (perform o >>= f) w := by
  refine secures_perform hI (fun h => absurd h hT) fun r w' h => ?_
  rw [ho] at h
  cases h

namespace Secures

theorem mono {Q' : α → World → Prop} {p : Prog Op Resp α} (h : Secures act T I Q p w)
    (hQ : ∀ a w', I w' → Q a w' → Q' a w') : Secures act T I Q' p w := by
  induction p generalizing w with
  | pure a => exact ⟨h.1, hQ a w h.1 h.2⟩
  | op o k ih => exact ⟨h.1, h.2.1, fun r w' ho => ih r (h.2.2 r w' ho)⟩

theorem bind {R : β → World → Prop} {p : Prog Op Resp α} {f : α → Prog Op Resp β}
    (h : Secures act T I Q p w)
    (hf : ∀ a w', I w' → Q a w' → Secures act T I R (f a) w') :
    Secures act T I R (p >>= f) w := by
  induction p generalizing w with
  | pure a => exact hf a w h.1 h.2
  | op o k ih => exact ⟨h.1, h.2.1, fun r w' ho => ih r (h.2.2 r w' ho)⟩

/-- What a crash leaves. -/
theorem crashAt {p : Prog Op Resp α} (h : Secures act T I Q p w) (n : ℕ) :
    I (crashAt act n p w) := by
  induction n generalizing p w with
  | zero => cases p <;> exact h.1
  | succ n ih =>
    cases p with
    | pure a => exact h.1
    | op o k =>
      unfold Prog.crashAt
      rcases ho : act o w with _ | ⟨r, w'⟩
      · exact h.1
      · exact ih (h.2.2 r w' ho)

end Secures

/-- A loop whose invariant speaks of the elements that are left. -/
theorem secures_forEach {f : γ → Prog Op Resp Unit} {J : List γ → World → Prop}
    (hI : ∀ xs w, J xs w → I w)
    (h : ∀ x xs w, J (x :: xs) w → Secures act T I (fun _ w' => J xs w') (f x) w) :
    ∀ (xs : List γ) (w : World), J xs w →
      Secures act T I (fun _ w' => J [] w') (forEach f xs) w := by
  intro xs
  induction xs with
  | nil => exact fun w hJ => ⟨hI [] w hJ, hJ⟩
  | cons x xs ih =>
    intro w hJ
    rw [forEach_cons]
    exact (h x xs w hJ).bind fun _ w' _ hJ' => ih w' hJ'

end Async.Prog
