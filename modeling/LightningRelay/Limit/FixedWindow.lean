import Mathlib.Algebra.Order.Group.Basic
import Mathlib.Data.List.Basic
import Mathlib.Tactic.Common

/-!
# Fixed-window rate limits

A client's slot holds the number of calls accepted in its window and the window's start.  A call that
finds no slot, or a slot whose window is over, opens a window; any other call is accepted while the
count is below the limit.  For a limit of at least one the file bounds what a run accepts: between two
openings (`accepted_of_opened`) and in an interval of time no longer than the window
(`accepted_within`).

A store may drop slots whose windows are over.  `Covers` relates such a slot to the one of a store that
drops nothing: calls cannot tell them apart (`Covers.step_eq`).
-/

set_option autoImplicit false

namespace FixedWindow

/-- What is observed of a call. -/
structure Answer (T : Type) where
  time : T
  accepted : Bool
  opened : Bool
  deriving DecidableEq, Repr

/-! ## Counting answers -/

section Counts

variable {T : Type} [LinearOrder T] {a b : T}

/-- The calls accepted from `a` to `b`. -/
def accepted (a b : T) (answers : List (Answer T)) : ℕ :=
  answers.countP fun x => x.accepted && a ≤ x.time && x.time ≤ b

theorem accepted_of_late (answers : List (Answer T)) (h : ∀ x ∈ answers, b < x.time) :
    accepted a b answers = 0 := by
  rw [accepted, List.countP_eq_zero]
  intro x hx
  simp [h x hx]

theorem accepted_cons (x : Answer T) (answers : List (Answer T)) :
    accepted a b (x :: answers) =
      accepted a b answers + if x.accepted && a ≤ x.time && x.time ≤ b then 1 else 0 := by
  rw [accepted, List.countP_cons, accepted]

theorem accepted_cons_le (x : Answer T) (answers : List (Answer T)) :
    accepted a b (x :: answers) ≤ accepted a b answers + 1 := by
  rw [accepted_cons]
  split <;> omega

theorem accepted_cons_of_refused {x : Answer T} (hx : x.accepted = false)
    (answers : List (Answer T)) : accepted a b (x :: answers) = accepted a b answers := by
  rw [accepted_cons, hx]
  rfl

end Counts

/-! ## The slot of one client -/

variable {T : Type} [AddCommGroup T] [LinearOrder T]

/-- Whether a call at `now` opens a window. -/
def opens (window : T) (slot : Option (ℕ × T)) (now : T) : Bool :=
  match slot with
  | none => true
  | some s => window < now - s.2

/-- The answer to a call at `now`, and the slot after it. -/
def step (max : ℕ) (window : T) (slot : Option (ℕ × T)) (now : T) : Bool × (ℕ × T) :=
  let s := slot.getD (0, now)
  if window < now - s.2 then (true, (1, now))
  else if s.1 < max then (true, (s.1 + 1, s.2))
  else (false, s)

/-- The calls of one client at the given times. -/
def run (max : ℕ) (window : T) : Option (ℕ × T) → List T → List (Answer T)
  | _, [] => []
  | slot, now :: times =>
    ⟨now, (step max window slot now).1, opens window slot now⟩ ::
      run max window (some (step max window slot now).2) times

variable {max : ℕ} {window now a b : T} {slot : Option (ℕ × T)} {s : ℕ × T} {times : List T}

/-! ## One call -/

theorem step_of_opens [IsOrderedAddMonoid T] (hmax : 1 ≤ max) (hwindow : 0 ≤ window)
    (h : opens window slot now = true) : step max window slot now = (true, (1, now)) := by
  unfold step
  cases slot with
  | none =>
    have hw : ¬window < now - now := by
      rw [sub_self]
      exact not_lt.2 hwindow
    dsimp only [Option.getD_none]
    rw [if_neg hw, if_pos (by omega)]
  | some s =>
    rw [Option.getD_some, if_pos (by simpa [opens] using h)]

theorem step_of_accepted (h : opens window (some s) now = false) (hs : s.1 < max) :
    step max window (some s) now = (true, (s.1 + 1, s.2)) := by
  have hw : ¬window < now - s.2 := by simpa [opens] using h
  unfold step
  rw [Option.getD_some, if_neg hw, if_pos hs]

theorem step_of_refused (h : opens window (some s) now = false) (hs : ¬s.1 < max) :
    step max window (some s) now = (false, s) := by
  have hw : ¬window < now - s.2 := by simpa [opens] using h
  unfold step
  rw [Option.getD_some, if_neg hw, if_neg hs]

theorem step_count_le (hmax : 1 ≤ max) (hs : ∀ s, slot = some s → s.1 ≤ max) :
    (step max window slot now).2.1 ≤ max := by
  unfold step
  cases slot with
  | none =>
    dsimp only [Option.getD_none]
    split_ifs <;> dsimp only <;> omega
  | some s =>
    have := hs s rfl
    dsimp only [Option.getD_some]
    split_ifs <;> dsimp only <;> omega

/-! ## Runs -/

theorem time_of_mem_run : ∀ (times : List T) (slot : Option (ℕ × T)) {x : Answer T},
    x ∈ run max window slot times → x.time ∈ times
  | [], _, x, h => by simp [run] at h
  | now :: times, slot, x, h => by
    rcases List.mem_cons.1 h with rfl | h
    · exact List.mem_cons_self
    · exact List.mem_cons_of_mem _ (time_of_mem_run times _ h)

/-- Until the next opening, a window accepts what its count leaves. -/
theorem accepted_of_not_opened : ∀ (times : List T) (s : ℕ × T) (mid post : List (Answer T)),
    s.1 ≤ max → run max window (some s) times = mid ++ post →
      (∀ x ∈ mid, x.opened = false) → s.1 + mid.countP (·.accepted) ≤ max := by
  intro times
  induction times with
  | nil =>
    intro s mid post hs hrun _
    obtain ⟨rfl, -⟩ := List.append_eq_nil_iff.1 hrun.symm
    exact hs
  | cons now times ih =>
    intro s mid post hs hrun hmid
    cases mid with
    | nil => exact hs
    | cons x mid =>
      obtain ⟨rfl, hrest⟩ := List.cons.inj hrun
      have hopen : opens window (some s) now = false := hmid _ List.mem_cons_self
      have hmid' : ∀ y ∈ mid, y.opened = false := fun y hy => hmid y (List.mem_cons_of_mem _ hy)
      by_cases hlt : s.1 < max
      · rw [step_of_accepted hopen hlt] at hrest ⊢
        have := ih (s.1 + 1, s.2) mid post hlt hrest hmid'
        rw [List.countP_cons_of_pos rfl]
        dsimp only at this ⊢
        omega
      · rw [step_of_refused hopen hlt] at hrest ⊢
        rw [List.countP_cons_of_neg Bool.false_ne_true]
        exact ih s mid post hs hrest hmid'

section Ordered

variable [IsOrderedAddMonoid T]

/-- From an opening to the next one at most `max` calls are accepted. -/
theorem accepted_of_opened (hmax : 1 ≤ max) (hwindow : 0 ≤ window) {r : Answer T}
    {mid post : List (Answer T)} (hr : r.opened = true) (hmid : ∀ x ∈ mid, x.opened = false) :
    ∀ (times : List T) (slot : Option (ℕ × T)) (pre : List (Answer T)),
      run max window slot times = pre ++ (r :: mid ++ post) →
        (r :: mid).countP (·.accepted) ≤ max := by
  intro times
  induction times with
  | nil =>
    intro slot pre hrun
    simp [run] at hrun
  | cons now times ih =>
    intro slot pre hrun
    cases pre with
    | cons x pre => exact ih _ pre (List.cons.inj hrun).2
    | nil =>
      obtain ⟨rfl, hrest⟩ := List.cons.inj hrun
      rw [step_of_opens hmax hwindow hr] at hrest ⊢
      have := accepted_of_not_opened times (1, now) mid post hmax hrest hmid
      rw [List.countP_cons_of_pos rfl]
      omega

/-- In an interval in which the window started, it accepts what its count leaves: the next opening is
after the interval. -/
theorem accepted_of_started (hab : b - a ≤ window) : ∀ (times : List T) (s : ℕ × T),
    s.1 ≤ max → a ≤ s.2 → times.Pairwise (· ≤ ·) →
      s.1 + accepted a b (run max window (some s) times) ≤ max := by
  intro times
  induction times with
  | nil => exact fun s hs _ _ => hs
  | cons now times ih =>
    intro s hs has hsorted
    obtain ⟨hle, hsorted⟩ := List.pairwise_cons.1 hsorted
    cases hopen : opens window (some s) now with
    | true =>
      have hw : window < now - s.2 := by simpa [opens] using hopen
      have hb : b < now := by
        calc b = b - a + a := (sub_add_cancel b a).symm
          _ ≤ window + s.2 := add_le_add hab has
          _ < now := lt_sub_iff_add_lt.1 hw
      rw [accepted_of_late]
      · exact hs
      · intro x hx
        rcases List.mem_cons.1 (time_of_mem_run (now :: times) _ hx) with h | h
        · exact h ▸ hb
        · exact hb.trans_le (hle _ h)
    | false =>
      unfold run
      by_cases hlt : s.1 < max
      · have := ih (s.1 + 1, s.2) hlt has hsorted
        rw [step_of_accepted hopen hlt]
        refine (Nat.add_le_add_left (accepted_cons_le _ _) _).trans ?_
        dsimp only at this ⊢
        omega
      · rw [step_of_refused hopen hlt, accepted_cons_of_refused rfl]
        exact ih s hs has hsorted

/-- From the interval's first call on, the current window accepts what its count leaves and the next
one at most `max` calls. -/
theorem accepted_of_entered (hmax : 1 ≤ max) (hwindow : 0 ≤ window) (hab : b - a ≤ window) :
    ∀ (times : List T) (s : ℕ × T), s.1 ≤ max → (∀ t ∈ times, a ≤ t) → times.Pairwise (· ≤ ·) →
      s.1 + accepted a b (run max window (some s) times) ≤ 2 * max := by
  intro times
  induction times with
  | nil =>
    intro s hs _ _
    exact hs.trans (by omega)
  | cons now times ih =>
    intro s hs ha hsorted
    have ha' : ∀ t ∈ times, a ≤ t := fun t ht => ha t (List.mem_cons_of_mem _ ht)
    have hsorted' := (List.pairwise_cons.1 hsorted).2
    unfold run
    cases hopen : opens window (some s) now with
    | true =>
      rw [step_of_opens hmax hwindow hopen]
      have hnew := accepted_of_started hab times (1, now) hmax (ha now List.mem_cons_self) hsorted'
      refine (Nat.add_le_add_left (accepted_cons_le _ _) _).trans ?_
      dsimp only at hnew ⊢
      omega
    | false =>
      by_cases hlt : s.1 < max
      · have := ih (s.1 + 1, s.2) hlt ha' hsorted'
        rw [step_of_accepted hopen hlt]
        refine (Nat.add_le_add_left (accepted_cons_le _ _) _).trans ?_
        dsimp only at this ⊢
        omega
      · rw [step_of_refused hopen hlt, accepted_cons_of_refused rfl]
        exact ih s hs ha' hsorted'

/-- In an interval no longer than the window at most twice `max` calls are accepted. -/
theorem accepted_within (hmax : 1 ≤ max) (hwindow : 0 ≤ window) (hab : b - a ≤ window) :
    ∀ (times : List T) (slot : Option (ℕ × T)), (∀ s, slot = some s → s.1 ≤ max) →
      times.Pairwise (· ≤ ·) → accepted a b (run max window slot times) ≤ 2 * max := by
  intro times
  induction times with
  | nil => exact fun _ _ _ => Nat.zero_le _
  | cons now times ih =>
    intro slot hslot hsorted
    obtain ⟨hle, hsorted'⟩ := List.pairwise_cons.1 hsorted
    have hnext : (step max window slot now).2.1 ≤ max := step_count_le hmax hslot
    by_cases ha : a ≤ now
    · -- every call from here on is in the interval or after it
      cases slot with
      | some s =>
        have := accepted_of_entered hmax hwindow hab (now :: times) s (hslot s rfl)
          (fun t ht => by
            rcases List.mem_cons.1 ht with rfl | ht
            · exact ha
            · exact ha.trans (hle t ht)) hsorted
        omega
      | none =>
        unfold run
        rw [step_of_opens hmax hwindow rfl]
        have hnew := accepted_of_started hab times (1, now) hmax ha hsorted'
        refine (accepted_cons_le _ _).trans ?_
        dsimp only at hnew ⊢
        omega
    · unfold run
      rw [accepted_cons, if_neg (by simp [ha]), Nat.add_zero]
      exact ih _ (fun s hs => by obtain rfl := Option.some.inj hs; exact hnext) hsorted'

end Ordered

/-! ## One more call -/

/-- The slot after the calls. -/
def slotAfter (max : ℕ) (window : T) : Option (ℕ × T) → List T → Option (ℕ × T)
  | slot, [] => slot
  | slot, now :: times => slotAfter max window (some (step max window slot now).2) times

theorem slotAfter_concat (times : List T) (slot : Option (ℕ × T)) (now : T) :
    slotAfter max window slot (times ++ [now]) =
      some (step max window (slotAfter max window slot times) now).2 := by
  induction times generalizing slot with
  | nil => rfl
  | cons t times ih => exact ih _

theorem run_concat (times : List T) (slot : Option (ℕ × T)) (now : T) :
    run max window slot (times ++ [now]) = run max window slot times ++
      [⟨now, (step max window (slotAfter max window slot times) now).1,
        opens window (slotAfter max window slot times) now⟩] := by
  induction times generalizing slot with
  | nil => rfl
  | cons t times ih => exact congrArg _ (ih _)

/-! ## Dropped slots -/

/-- The slot of a store that drops slots, beside the slot of a store that drops none: they are the
same, or the former is gone and the window of the latter is over at `now`. -/
def Covers (window now : T) (real ideal : Option (ℕ × T)) : Prop :=
  real = ideal ∨ real = none ∧ opens window ideal now = true

variable {real ideal : Option (ℕ × T)}

theorem Covers.drop (hc : Covers window now real ideal) :
    Covers window now (real.filter fun s => now - s.2 ≤ window) ideal := by
  rcases hc with rfl | ⟨rfl, hopen⟩
  · cases real with
    | none => exact Or.inl rfl
    | some s =>
      by_cases h : now - s.2 ≤ window
      · exact Or.inl (by simp [Option.filter, h])
      · exact Or.inr ⟨by simp [Option.filter, h], decide_eq_true (not_le.1 h)⟩
  · exact Or.inr ⟨rfl, hopen⟩

theorem Covers.opens_eq (hc : Covers window now real ideal) :
    opens window real now = opens window ideal now := by
  rcases hc with rfl | ⟨rfl, hopen⟩
  · rfl
  · exact hopen.symm

section Ordered

variable [IsOrderedAddMonoid T]

theorem opens_mono {later : T} (h : now ≤ later) (ho : opens window slot now = true) :
    opens window slot later = true := by
  cases slot with
  | none => rfl
  | some s =>
    have hw : window < now - s.2 := by simpa [opens] using ho
    simpa [opens] using hw.trans_le (sub_le_sub_right h s.2)

/-- A window that is over stays over. -/
theorem Covers.mono {later : T} (hc : Covers window now real ideal) (h : now ≤ later) :
    Covers window later real ideal :=
  hc.imp id fun ⟨hnone, hopen⟩ => ⟨hnone, opens_mono h hopen⟩

/-- A call does not see that a slot was dropped: opening a window anew and starting it over in place
leave the same slot. -/
theorem Covers.step_eq (hmax : 1 ≤ max) (hwindow : 0 ≤ window)
    (hc : Covers window now real ideal) : step max window real now = step max window ideal now := by
  rcases hc with rfl | ⟨rfl, hopen⟩
  · rfl
  · rw [step_of_opens hmax hwindow rfl, step_of_opens hmax hwindow hopen]

end Ordered

end FixedWindow
