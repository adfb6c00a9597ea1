import LightningRelay.Async.Prog
import Mathlib.Data.List.Infix

/-!
# Programs that are started again

A process runs a program when it starts.  It may crash in the middle of it, or come to a result and end
later; the next process finds what the one before has left.  `Starts` are all such histories, and
`Starts.invariant` is the rule for what holds between two processes.

What a crash leaves of a file is said by `DiskFile.Torn`: data that was written and not synced is lost
when the power goes, all of it or from some point on, and a new file is lost whole where the disk does
not hold its entry in the directory.
-/

set_option autoImplicit false

namespace Async

variable {Op : Type} {Resp : Op → Type} {World α : Type}

/-- What the operations can do to a world and be answered, and what a crash can leave of it. -/
structure Host (Op : Type) (Resp : Op → Type) (World : Type) where
  Step : (o : Op) → World → Resp o → World → Prop
  Crash : World → World → Prop

namespace Host

variable (H : Host Op Resp World)

/-- Some operations of a program. -/
inductive Runs : Prog Op Resp α → World → Prog Op Resp α → World → Prop where
  | refl {p : Prog Op Resp α} {w : World} : Runs p w p w
  | step {o : Op} {k : Resp o → Prog Op Resp α} {r : Resp o} {q : Prog Op Resp α} {w w₁ w' : World} :
      H.Step o w r w₁ → Runs (k r) w₁ q w' → Runs (.op o k) w q w'

theorem Runs.trans {H : Host Op Resp World} {p q q' : Prog Op Resp α} {w w' w'' : World}
    (h : H.Runs p w q w') (h' : H.Runs q w' q' w'') : H.Runs p w q' w'' := by
  induction h with
  | refl => exact h'
  | step hs _ ih => exact .step hs (ih h')

/-- The world before the next start, after starts that returned the results `as`, newest first, and
others that did not return. -/
inductive Starts (p : Prog Op Resp α) (w₀ : World) : List α → World → Prop where
  | first : Starts p w₀ [] w₀
  | crashed {as : List α} {q : Prog Op Resp α} {w w' w'' : World} : Starts p w₀ as w →
      H.Runs p w q w' → H.Crash w' w'' → Starts p w₀ as w''
  | returned {as : List α} {a : α} {w w' w'' : World} : Starts p w₀ as w →
      H.Runs p w (.pure a) w' → (w'' = w' ∨ H.Crash w' w'') → Starts p w₀ (a :: as) w''

/-- On every way of the program `I` holds, and `Q` at its end. -/
def Safe (I : World → Prop) (Q : α → World → Prop) : Prog Op Resp α → World → Prop
  | .pure a, w => I w ∧ Q a w
  | .op o k, w => I w ∧ ∀ r w', H.Step o w r w' → Safe I Q (k r) w'

variable {H} {I : World → Prop} {Q : α → World → Prop} {p q : Prog Op Resp α} {w w' w₀ : World}

theorem safe_pure {a : α} (hI : I w) (hQ : Q a w) : H.Safe I Q (pure a) w := ⟨hI, hQ⟩

theorem safe_perform {o : Op} {f : Resp o → Prog Op Resp α} (hI : I w)
    (h : ∀ r w', H.Step o w r w' → H.Safe I Q (f r) w') : H.Safe I Q (Prog.perform o >>= f) w := ⟨hI, h⟩

theorem Safe.bind {β : Type} {R : β → World → Prop} {f : α → Prog Op Resp β} (h : H.Safe I Q p w)
    (hf : ∀ a w', I w' → Q a w' → H.Safe I R (f a) w') : H.Safe I R (p >>= f) w := by
  induction p generalizing w with
  | pure a => exact hf a w h.1 h.2
  | op o k ih => exact ⟨h.1, fun r w' hs => ih r (h.2 r w' hs)⟩

theorem Safe.here (h : H.Safe I Q p w) : I w := by
  cases p with
  | pure a => exact h.1
  | op o k => exact h.1

theorem Safe.runs (h : H.Safe I Q p w) (hr : H.Runs p w q w') : H.Safe I Q q w' := by
  induction hr with
  | refl => exact h
  | step hs _ ih => exact ih (h.2 _ _ hs)

/-- A relation between the results so far and what a start finds, which every start keeps. -/
theorem Starts.invariant {J : List α → World → Prop} {I : List α → World → Prop}
    {Q : List α → α → World → Prop} {as : List α} (hr : H.Starts p w₀ as w) (h₀ : J [] w₀)
    (hrun : ∀ {as w}, J as w → H.Safe (I as) (Q as) p w)
    (hcrash : ∀ {as w w'}, I as w → H.Crash w w' → J as w')
    (hend : ∀ {as a w}, Q as a w → J (a :: as) w)
    (hlost : ∀ {as a w w'}, Q as a w → H.Crash w w' → J (a :: as) w') : J as w := by
  induction hr with
  | first => exact h₀
  | crashed _ hq hc ih => exact hcrash ((hrun ih).runs hq).here hc
  | returned _ hq hc ih =>
    have hQ := ((hrun ih).runs hq).2
    rcases hc with rfl | hc
    · exact hend hQ
    · exact hlost hQ hc

end Host

/-! ## Files -/

/-- A file, whether the disk holds all that was written to it, and whether the directory on the disk
says that it is there. -/
structure DiskFile (β : Type) where
  content : Option (List β)
  synced : Bool
  entered : Bool
  deriving DecidableEq, Repr

namespace DiskFile

variable {β : Type}

/-- There is no file. -/
def missing : DiskFile β := ⟨none, true, true⟩

/-- The disk holds the file as it is. -/
def durable (d : DiskFile β) : Bool := d.synced && d.entered

/-- What is left when the power goes: what the disk holds, and of the rest as much as it came to. -/
inductive Torn (d : DiskFile β) : DiskFile β → Prop where
  | whole : Torn d ⟨d.content, true, true⟩
  | lost : d.durable = false → Torn d missing
  | part {bytes pre : List β} : d.synced = false → d.content = some bytes → pre <+: bytes →
      Torn d ⟨some pre, true, true⟩

theorem Torn.durable_eq {d d' : DiskFile β} (h : d.Torn d') : d'.durable = true := by
  cases h with
  | whole => rfl
  | lost _ => rfl
  | part _ _ _ => rfl

/-- A file that the disk holds is there afterwards. -/
theorem Torn.content_eq {d d' : DiskFile β} (h : d.Torn d') (hd : d.durable = true) :
    d'.content = d.content := by
  cases h with
  | whole => rfl
  | lost hlost => simp [hd] at hlost
  | part hlost _ _ => simp [durable, hlost] at hd

end DiskFile

end Async
