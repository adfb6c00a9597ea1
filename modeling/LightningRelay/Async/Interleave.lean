import LightningRelay.Async.Prog
import Mathlib.Logic.Function.Basic
import Mathlib.Logic.Relation

/-!
# Threads that do not influence each other

Threads run interleaved over one store, each with a local state that no other thread sees.  If
operations of different threads commute, the interleaving does not matter:

* `runAll_of_interleaved`: wherever an interleaving has got, the threads that are run on one after the
  other, in any order, end in the store in which they end from the beginning;
* `interleaved_runAll`: running them one after the other is one of the interleavings;
* `Ready.view`: what no operation changes is the same all along.
-/

set_option autoImplicit false

namespace Async

/-- A program and the local state of the thread that runs it. -/
structure Thread (Op : Type) (Resp : Op → Type) (L : Type) where
  prog : Prog Op Resp Unit
  loc : L

variable {ι Op L S : Type} {Resp : Op → Type}

/-- The threads and the store that they share. -/
abbrev Threads (ι Op : Type) (Resp : Op → Type) (L S : Type) : Type :=
  (ι → Thread Op Resp L) × S

namespace Threads

section

variable (act : (o : Op) → L × S → Option (Resp o × L × S))

/-- The next operation of the thread `i`. -/
inductive Turn [DecidableEq ι] (i : ι) : Threads ι Op Resp L S → Threads ι Op Resp L S → Prop where
  | mk {t : ι → Thread Op Resp L} {s s' : S} {o : Op} {k : Resp o → Prog Op Resp Unit} {r : Resp o}
      {l : L} : (t i).prog = .op o k → act o ((t i).loc, s) = some (r, l, s') →
      Turn i (t, s) (Function.update t i ⟨k r, l⟩, s')

/-- Some operations of the threads, in any order. -/
def Interleaved [DecidableEq ι] : Threads ι Op Resp L S → Threads ι Op Resp L S → Prop :=
  Relation.ReflTransGen fun x y => ∃ i, Turn act i x y

/-- The threads of a list run one after the other, each to its end: the store at the end, if all of
them return. -/
def runAll (t : ι → Thread Op Resp L) : List ι → S → Option S
  | [], s => some s
  | i :: is, s =>
    match (t i).prog.exec act ((t i).loc, s) with
    | (some _, (_, s')) => runAll t is s'
    | (none, _) => none

/-- The operations that the program performs on stores with the invariant are in `P`. -/
def Keeps (Inv : S → Prop) (P : Op → Prop) : Prog Op Resp Unit → Prop
  | .pure _ => True
  | .op o k => ∀ l s r l' s', Inv s → act o (l, s) = some (r, l', s') → P o ∧ Keeps Inv P (k r)

/-- Operations of different threads commute, and keep the invariant. -/
structure Independent (Inv : S → Prop) (Own : ι → Op → Prop) : Prop where
  keep : ∀ {i : ι} {o : Op} {r : Resp o} {l l' : L} {s s' : S}, Own i o → Inv s →
    act o (l, s) = some (r, l', s') → Inv s'
  swap : ∀ {i j : ι} {o o' : Op} {r : Resp o} {r' : Resp o'} {l l₁ l' l₁' : L} {s s₁ s₂ : S},
    i ≠ j → Own i o → Own j o' → Inv s → act o (l, s) = some (r, l₁, s₁) →
    act o' (l', s) = some (r', l₁', s₂) →
    ∃ s₃, act o' (l', s₁) = some (r', l₁', s₃) ∧ act o (l, s₂) = some (r, l₁, s₃)

/-- The store has the invariant, and every thread keeps to its own operations. -/
structure Ready (Inv : S → Prop) (Own : ι → Op → Prop) (x : Threads ι Op Resp L S) : Prop where
  inv : Inv x.2
  keeps : ∀ i, Keeps act Inv (Own i) (x.1 i).prog

end

section

variable {act : (o : Op) → L × S → Option (Resp o × L × S)} {Inv : S → Prop} {Own : ι → Op → Prop}
  {i j : ι}

theorem keeps_of_only {P : Op → Prop} {p : Prog Op Resp Unit} (h : p.Only P) : Keeps act Inv P p := by
  induction p with
  | pure a => trivial
  | op o k ih =>
    intro l s r l' s' _ _
    obtain ⟨ho, hk⟩ := only_op.1 h r
    exact ⟨ho, ih r hk⟩

/-- A thread runs to the same end after an operation of another thread, and that operation does the
same after it. -/
theorem exec_swap (hI : Independent act Inv Own) (hij : i ≠ j) {p : Prog Op Resp Unit} {o : Op}
    {r : Resp o} {l l₁ l' l₂ : L} {s s₁ s₂ : S} (hp : Keeps act Inv (Own j) p) (ho : Own i o)
    (hs : Inv s) (hact : act o (l, s) = some (r, l₁, s₁))
    (hexec : p.exec act (l', s) = (some (), (l₂, s₂))) :
    ∃ s₃, p.exec act (l', s₁) = (some (), (l₂, s₃)) ∧ act o (l, s₂) = some (r, l₁, s₃) ∧ Inv s₂ := by
  induction p generalizing l' s s₁ with
  | pure a =>
    obtain ⟨-, heq⟩ := Prod.mk.inj hexec
    obtain ⟨rfl, rfl⟩ := Prod.mk.inj heq
    exact ⟨s₁, rfl, hact, hs⟩
  | op o' k ih =>
    rw [Prog.exec] at hexec ⊢
    rcases ho' : act o' (l', s) with _ | ⟨r', l₁', s'⟩
    · rw [ho'] at hexec
      cases hexec
    · rw [ho'] at hexec
      obtain ⟨how, hk⟩ := hp _ _ _ _ _ hs ho'
      obtain ⟨s₃, hact', hback⟩ := hI.swap hij ho how hs hact ho'
      rw [hact']
      exact ih r' hk (hI.keep how hs ho') hback hexec

variable {t : ι → Thread Op Resp L} {s : S}

/-- Threads that are not in the list do not matter. -/
theorem runAll_congr {t' : ι → Thread Op Resp L} (is : List ι) (h : ∀ j ∈ is, t j = t' j) (s : S) :
    runAll act t is s = runAll act t' is s := by
  induction is generalizing s with
  | nil => rfl
  | cons j is ih =>
    obtain ⟨hj, his⟩ := List.forall_mem_cons.1 h
    simp only [runAll, hj, ih his]

/-- Threads that have ended leave the store as it is. -/
theorem runAll_of_ended (h : ∀ j, (t j).prog.ended = true) (is : List ι) : runAll act t is s = some s := by
  induction is with
  | nil => rfl
  | cons j is ih =>
    have hj := h j
    rw [runAll]
    rcases hp : (t j).prog with a | ⟨o, k⟩
    · exact ih
    · rw [hp] at hj
      cases hj

/-- Threads that return from every state return one after the other. -/
theorem exists_runAll (h : ∀ i x, ∃ y, (t i).prog.exec act x = (some (), y)) (is : List ι) (s : S) :
    ∃ s', runAll act t is s = some s' := by
  induction is generalizing s with
  | nil => exact ⟨s, rfl⟩
  | cons i is ih =>
    obtain ⟨⟨l, s₁⟩, hexec⟩ := h i ((t i).loc, s)
    obtain ⟨s', hs'⟩ := ih s₁
    exact ⟨s', by rw [runAll, hexec]; exact hs'⟩

variable [DecidableEq ι] {x y : Threads ι Op Resp L S}

/-- A thread that runs to its end takes turns. -/
theorem interleaved_exec {p : Prog Op Resp Unit} {l l' : L} {s' : S} (hp : t i = ⟨p, l⟩)
    (hexec : p.exec act (l, s) = (some (), (l', s'))) :
    Interleaved act (t, s) (Function.update t i ⟨.pure (), l'⟩, s') := by
  induction p generalizing t l s with
  | pure a =>
    obtain ⟨-, heq⟩ := Prod.mk.inj hexec
    obtain ⟨rfl, rfl⟩ := Prod.mk.inj heq
    rw [← hp, Function.update_eq_self]
    exact .refl
  | op o k ih =>
    rw [Prog.exec] at hexec
    rcases ho : act o (l, s) with _ | ⟨r, l₁, s₁⟩
    · rw [ho] at hexec
      cases hexec
    · rw [ho] at hexec
      have hturn : Turn act i (t, s) (Function.update t i ⟨k r, l₁⟩, s₁) :=
        .mk (congrArg Thread.prog hp) (by rw [hp]; exact ho)
      have hrest := ih r (Function.update_self i _ t) hexec
      rw [Function.update_idem] at hrest
      exact .head ⟨i, hturn⟩ hrest

/-- Running threads one after the other is one of the interleavings. -/
theorem interleaved_runAll {is : List ι} {s' : S} (hnd : is.Nodup)
    (hrun : runAll act t is s = some s') :
    ∃ t', Interleaved act (t, s) (t', s') ∧ ∀ i, i ∈ is ∨ (t i).prog.ended = true →
      (t' i).prog.ended = true := by
  induction is generalizing t s with
  | nil =>
    obtain rfl := Option.some.inj hrun
    exact ⟨t, .refl, fun i hi => hi.resolve_left List.not_mem_nil⟩
  | cons i is ih =>
    obtain ⟨hi, hnd⟩ := List.nodup_cons.1 hnd
    rw [runAll] at hrun
    rcases hexec : (t i).prog.exec act ((t i).loc, s) with ⟨_ | _, l₁, s₁⟩
    · rw [hexec] at hrun
      cases hrun
    · rw [hexec] at hrun
      have hcongr : runAll act (Function.update t i ⟨.pure (), l₁⟩) is s₁ = runAll act t is s₁ := by
        apply runAll_congr
        intro j hj
        have hne : j ≠ i := fun heq => hi (heq ▸ hj)
        rw [Function.update_of_ne hne]
      have hfirst : Interleaved act (t, s) (Function.update t i ⟨.pure (), l₁⟩, s₁) :=
        interleaved_exec rfl hexec
      obtain ⟨t', hint, hended⟩ := ih hnd (hcongr.trans hrun)
      refine ⟨t', hfirst.trans hint, fun j hj => hended j ?_⟩
      by_cases hji : j = i
      · subst hji
        exact Or.inr (by rw [Function.update_self]; rfl)
      · rw [Function.update_of_ne hji]
        exact hj.imp_left fun h => (List.mem_cons.1 h).resolve_left hji

theorem Ready.turn (h : Ready act Inv Own x) (hI : Independent act Inv Own) (ht : Turn act i x y) :
    Ready act Inv Own y := by
  cases ht with
  | @mk t s s' o k r l hp ho =>
    have hkeeps := h.keeps i
    rw [hp] at hkeeps
    obtain ⟨how, hk⟩ := hkeeps _ _ _ _ _ h.inv ho
    refine ⟨hI.keep how h.inv ho, fun j => ?_⟩
    by_cases hj : j = i
    · subst hj
      simpa using hk
    · simpa [Function.update_of_ne hj] using h.keeps j

/-- The threads, run one after the other, end in the same store after one of them has had a turn. -/
theorem runAll_of_turn (hI : Independent act Inv Own) (hx : Ready act Inv Own x)
    (ht : Turn act i x y) {is : List ι} (hnd : is.Nodup) (hi : i ∈ is) {s' : S}
    (hrun : runAll act x.1 is x.2 = some s') : runAll act y.1 is y.2 = some s' := by
  cases ht with
  | @mk t s s₁ o k r l hp hact =>
    have hinv : Inv s := hx.inv
    have hkeeps : ∀ j, Keeps act Inv (Own j) (t j).prog := hx.keeps
    have how : Own i o := by
      have h := hkeeps i
      rw [hp] at h
      exact (h _ _ _ _ _ hinv hact).1
    dsimp only at hrun ⊢
    clear hx
    induction is generalizing s s₁ with
    | nil => cases hi
    | cons j is ih =>
      obtain ⟨hj, hnd⟩ := List.nodup_cons.1 hnd
      by_cases hij : i = j
      · -- the thread's own turn: the rest of its program is what is left to run
        subst hij
        have hrest : ∀ s, runAll act (Function.update t i ⟨k r, l⟩) is s = runAll act t is s := by
          refine runAll_congr is fun m hm => Function.update_of_ne ?_ _ _
          rintro rfl
          exact hj hm
        rw [runAll, hp, Prog.exec, hact] at hrun
        simp only [runAll, Function.update_self, hrest]
        exact hrun
      · rw [runAll] at hrun
        rcases hexec : (t j).prog.exec act ((t j).loc, s) with ⟨_ | _, l₂, s₂⟩
        · rw [hexec] at hrun
          cases hrun
        · rw [hexec] at hrun
          obtain ⟨s₃, hexec', hback, hinv'⟩ := exec_swap hI hij (hkeeps j) how hinv hact hexec
          rw [runAll, Function.update_of_ne (Ne.symm hij), hexec']
          exact ih hnd ((List.mem_cons.1 hi).resolve_left hij) hback hrun hinv'

/-- Wherever an interleaving has got, running the threads on one after the other ends in the same
store. -/
theorem runAll_of_interleaved (hI : Independent act Inv Own) (hx : Ready act Inv Own x)
    (hxy : Interleaved act x y) {is : List ι} (hnd : is.Nodup) (hall : ∀ i, i ∈ is) {s' : S}
    (hrun : runAll act x.1 is x.2 = some s') : runAll act y.1 is y.2 = some s' := by
  induction hxy using Relation.ReflTransGen.head_induction_on with
  | refl => exact hrun
  | head hturn _ ih =>
    obtain ⟨i, hturn⟩ := hturn
    exact ih (hx.turn hI hturn) (runAll_of_turn hI hx hturn hnd (hall i) hrun)

/-- What no operation of a thread changes is the same all along. -/
theorem Ready.view {V : Type} (view : S → V) (hr : Ready act Inv Own x) (hI : Independent act Inv Own)
    (hview : ∀ {i o r l l' s s'}, Own i o → act o (l, s) = some (r, l', s') → view s' = view s)
    (hxy : Interleaved act x y) : view y.2 = view x.2 := by
  induction hxy using Relation.ReflTransGen.head_induction_on with
  | refl => rfl
  | head hturn _ ih =>
    obtain ⟨i, hturn⟩ := hturn
    rw [ih (hr.turn hI hturn)]
    cases hturn with
    | mk hp hact =>
      have hkeeps := hr.keeps i
      rw [hp] at hkeeps
      exact hview (hkeeps _ _ _ _ _ hr.inv hact).1 hact

end

end Threads

end Async
