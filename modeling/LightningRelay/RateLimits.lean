import LightningRelay.Limit.FixedWindow
import LightningRelay.RateLimiter
import Mathlib.Algebra.Order.Group.Int
import Mathlib.Data.List.Nodup

/-!
# What the rate limiter accepts

The limiter keeps one fixed window for each client in a map and purges the map when it has grown above
1000 entries.  For one client, the map before and after a call is the slot of `FixedWindow`
(`check_eq_step`): its own calls step the slot, a purge drops it when its window is over, and the calls
of other clients leave it alone.  So the calls of a client run as they would alone, without purges
(`answers_eq_run`), and the bounds on one window are bounds on the limiter.

They need a limit of at least one: with the limit 0 the first call of a client is refused, and the call
that finds the window over starts a new one and is accepted.
-/

set_option autoImplicit false

namespace LightningRelay

open FixedWindow

namespace RateLimiter

/-- The limiter of `start_ldk`; the window is given in the resolution of the clock. -/
def new (maxPerWindow window : ℕ) : RateLimiter := ⟨[], maxPerWindow, window⟩

/-! ## The map -/

section Map

variable {ip ip' : String} {e : ℕ × ℤ}

theorem lookup_cons_fst (r : String × ℕ × ℤ) (rs : List (String × ℕ × ℤ)) :
    (r :: rs).lookup r.1 = some r.2 := List.lookup_cons_self

theorem lookup_cons_of_ne {r : String × ℕ × ℤ} (h : ip ≠ r.1) (rs : List (String × ℕ × ℤ)) :
    (r :: rs).lookup ip = rs.lookup ip := by
  obtain ⟨k, e⟩ := r
  rw [List.lookup_cons, beq_false_of_ne h]

theorem lookup_setEntry_self (rs : List (String × ℕ × ℤ)) :
    (setEntry ip e rs).lookup ip = some e := by
  induction rs with
  | nil => exact lookup_cons_fst (ip, e) []
  | cons r rs ih =>
    unfold setEntry
    split_ifs with h
    · exact lookup_cons_fst (ip, e) rs
    · rw [lookup_cons_of_ne (Ne.symm h), ih]

theorem lookup_setEntry_of_ne (h : ip' ≠ ip) (rs : List (String × ℕ × ℤ)) :
    (setEntry ip e rs).lookup ip' = rs.lookup ip' := by
  induction rs with
  | nil => exact lookup_cons_of_ne h []
  | cons r rs ih =>
    unfold setEntry
    split_ifs with hr
    · rw [lookup_cons_of_ne h, lookup_cons_of_ne (hr ▸ h)]
    · by_cases hip : ip' = r.1
      · subst hip
        rw [lookup_cons_fst, lookup_cons_fst]
      · rw [lookup_cons_of_ne hip, lookup_cons_of_ne hip, ih]

theorem map_fst_setEntry (rs : List (String × ℕ × ℤ)) :
    (setEntry ip e rs).map Prod.fst =
      if ip ∈ rs.map Prod.fst then rs.map Prod.fst else rs.map Prod.fst ++ [ip] := by
  induction rs with
  | nil => simp [setEntry]
  | cons r rs ih =>
    unfold setEntry
    split_ifs with hr hmem hmem
    · simp [hr]
    · exact absurd (by simp [hr]) hmem
    · rw [List.map_cons, ih, if_pos (by simpa [Ne.symm hr] using hmem), List.map_cons]
    · rw [List.map_cons, ih, if_neg fun h => hmem (List.mem_cons_of_mem _ h), List.map_cons,
        List.cons_append]

theorem nodup_setEntry {rs : List (String × ℕ × ℤ)} (h : (rs.map Prod.fst).Nodup) :
    ((setEntry ip e rs).map Prod.fst).Nodup := by
  rw [map_fst_setEntry]
  split_ifs with hmem
  · exact h
  · rw [(List.perm_append_singleton _ _).nodup_iff, List.nodup_cons]
    exact ⟨hmem, h⟩

theorem lookup_filter {rs : List (String × ℕ × ℤ)} (h : (rs.map Prod.fst).Nodup)
    (p : ℕ × ℤ → Bool) : (rs.filter fun r => p r.2).lookup ip = (rs.lookup ip).filter p := by
  induction rs with
  | nil => rfl
  | cons r rs ih =>
    obtain ⟨hr, hrs⟩ := List.nodup_cons.1 h
    rw [List.filter_cons]
    by_cases hip : ip = r.1
    · subst hip
      have hnone : rs.lookup r.1 = none := by
        rw [List.lookup_eq_none_iff]
        intro x hx
        exact bne_iff_ne.2 fun hx' => hr (hx' ▸ List.mem_map_of_mem hx)
      split_ifs with hp
      · simp [lookup_cons_fst, Option.filter, hp]
      · simp [lookup_cons_fst, Option.filter, hp, ih hrs, hnone]
    · split_ifs <;> simp [lookup_cons_of_ne hip, ih hrs]

end Map

/-! ## One client -/

/-- The slot of a client. -/
def slot (l : RateLimiter) (ip : String) : Option (ℕ × ℤ) := l.requests.lookup ip

/-- The limiter after the purge of a call. -/
def purged (l : RateLimiter) (now : ℤ) : RateLimiter := { l with requests := l.retained now }

/-- Whether a call opens a window: it finds no entry, or one whose window is over. -/
def opens (l : RateLimiter) (ip : String) (now : ℤ) : Bool :=
  FixedWindow.opens l.window ((l.purged now).slot ip) now

/-- A call of a limiter that purges nothing. -/
def checkUnevicted (l : RateLimiter) (ip : String) (now : ℤ) : Bool × RateLimiter :=
  let entry := (l.requests.lookup ip).getD (0, now)
  if now - entry.2 > l.window then
    (true, { l with requests := setEntry ip (1, now) l.requests })
  else if entry.1 < l.maxPerWindow then
    (true, { l with requests := setEntry ip (entry.1 + 1, entry.2) l.requests })
  else
    (false, { l with requests := setEntry ip entry l.requests })

theorem check_eq (l : RateLimiter) (ip : String) (now : ℤ) :
    l.check ip now = (l.purged now).checkUnevicted ip now := rfl

theorem checkUnevicted_eq_step (l : RateLimiter) (ip : String) (now : ℤ) :
    l.checkUnevicted ip now =
      ((step l.maxPerWindow l.window (l.slot ip) now).1,
        { l with
          requests := setEntry ip (step l.maxPerWindow l.window (l.slot ip) now).2 l.requests }) := by
  unfold checkUnevicted step slot
  generalize (l.requests.lookup ip).getD (0, now) = entry
  by_cases hwindow : l.window < now - entry.2
  · simp only [gt_iff_lt, if_pos hwindow]
  · by_cases hmax : entry.1 < l.maxPerWindow <;>
      simp only [gt_iff_lt, if_neg hwindow, hmax, if_true, if_false]

/-- The limiter seen by the client `ip` at `now`: `ideal` is the slot it would have alone and without
purges. -/
structure Sees (l : RateLimiter) (maxPerWindow : ℕ) (window : ℤ) (ip : String) (now : ℤ)
    (ideal : Option (ℕ × ℤ)) : Prop where
  max_eq : l.maxPerWindow = maxPerWindow
  window_eq : l.window = window
  keyed : (l.requests.map Prod.fst).Nodup
  covers : Covers window now (l.slot ip) ideal

variable {l : RateLimiter} {maxPerWindow : ℕ} {window : ℤ} {ip ip' : String} {now later : ℤ}
  {ideal : Option (ℕ × ℤ)}

theorem sees_new (maxPerWindow window : ℕ) (ip : String) (now : ℤ) :
    (new maxPerWindow window).Sees maxPerWindow window ip now none :=
  ⟨rfl, rfl, List.nodup_nil, Or.inl rfl⟩

namespace Sees

theorem mono (h : l.Sees maxPerWindow window ip now ideal) (hle : now ≤ later) :
    l.Sees maxPerWindow window ip later ideal :=
  ⟨h.max_eq, h.window_eq, h.keyed, h.covers.mono hle⟩

/-- A purge drops the slot only when its window is over. -/
theorem purged (h : l.Sees maxPerWindow window ip now ideal) :
    (l.purged now).Sees maxPerWindow window ip now ideal := by
  unfold RateLimiter.purged retained
  split_ifs
  · refine ⟨h.max_eq, h.window_eq, h.keyed.sublist (List.filter_sublist.map _), ?_⟩
    rw [slot, lookup_filter h.keyed fun s => now - s.2 ≤ l.window, h.window_eq]
    exact h.covers.drop
  · exact h

theorem opens_eq (h : l.Sees maxPerWindow window ip now ideal) :
    l.opens ip now = FixedWindow.opens window ideal now := by
  rw [opens, h.window_eq]
  exact h.purged.covers.opens_eq

/-- A call of the client steps its slot. -/
theorem check_self (hmax : 1 ≤ maxPerWindow) (hwindow : 0 ≤ window)
    (h : l.Sees maxPerWindow window ip now ideal) :
    (l.check ip now).1 = (step maxPerWindow window ideal now).1 ∧
      (l.check ip now).2.Sees maxPerWindow window ip now
        (some (step maxPerWindow window ideal now).2) := by
  have hp := h.purged
  rw [check_eq, checkUnevicted_eq_step, hp.max_eq, hp.window_eq, hp.covers.step_eq hmax hwindow]
  exact ⟨rfl, rfl, rfl, nodup_setEntry hp.keyed, Or.inl (lookup_setEntry_self _)⟩

/-- A call of another client leaves it alone. -/
theorem check_other (h : l.Sees maxPerWindow window ip now ideal) (hne : ip ≠ ip') :
    (l.check ip' now).2.Sees maxPerWindow window ip now ideal := by
  have hp := h.purged
  rw [check_eq, checkUnevicted_eq_step]
  refine ⟨hp.max_eq, hp.window_eq, nodup_setEntry hp.keyed, ?_⟩
  rw [slot, lookup_setEntry_of_ne hne]
  exact hp.covers

end Sees

/-! ## Runs -/

/-- What is observed of a call. -/
structure Checked where
  ip : String
  answer : Answer ℤ
  deriving DecidableEq, Repr

/-- The calls in turn. -/
def trace : RateLimiter → List (String × ℤ) → List Checked
  | _, [] => []
  | l, (ip, now) :: calls =>
    ⟨ip, now, (l.check ip now).1, l.opens ip now⟩ :: trace (l.check ip now).2 calls

/-- The times do not decrease. -/
def Timely (calls : List (String × ℤ)) : Prop := calls.Pairwise fun c d => c.2 ≤ d.2

instance (calls : List (String × ℤ)) : Decidable (Timely calls) :=
  inferInstanceAs (Decidable (List.Pairwise _ _))

theorem exists_start {calls : List (String × ℤ)} (h : Timely calls) :
    ∃ start : ℤ, ∀ c ∈ calls, start ≤ c.2 := by
  cases calls with
  | nil => exact ⟨0, fun _ hc => absurd hc List.not_mem_nil⟩
  | cons c calls =>
    refine ⟨c.2, fun d hd => ?_⟩
    rcases List.mem_cons.1 hd with rfl | hd
    · exact Int.le_refl _
    · exact (List.pairwise_cons.1 h).1 d hd

/-- The calls of a client. -/
def own (ip : String) (calls : List (String × ℤ)) : List (String × ℤ) :=
  calls.filter fun c => c.1 = ip

/-- What is observed of the calls of a client. -/
def answers (ip : String) (cs : List Checked) : List (Answer ℤ) :=
  (cs.filter fun c => c.ip = ip).map (·.answer)

/-- The calls of a client are answered as if it were alone. -/
theorem answers_eq_run (hmax : 1 ≤ maxPerWindow) (hwindow : 0 ≤ window) :
    ∀ (calls : List (String × ℤ)) (l : RateLimiter) (now : ℤ) (ideal : Option (ℕ × ℤ)),
      l.Sees maxPerWindow window ip now ideal → Timely calls → (∀ c ∈ calls, now ≤ c.2) →
        answers ip (trace l calls) =
          run maxPerWindow window ideal ((own ip calls).map Prod.snd) := by
  intro calls
  induction calls with
  | nil => exact fun _ _ _ _ _ _ => rfl
  | cons c calls ih =>
    intro l now ideal hl htimely hnow
    obtain ⟨hle, htimely⟩ := List.pairwise_cons.1 htimely
    have hc := hl.mono (hnow c List.mem_cons_self)
    by_cases hip : c.1 = ip
    · subst hip
      obtain ⟨haccepted, hnext⟩ := hc.check_self hmax hwindow
      have := ih _ c.2 _ hnext htimely hle
      unfold answers own at this ⊢
      simp only [trace, List.filter_cons, decide_true, if_true, List.map_cons, run, this,
        haccepted, hc.opens_eq]
    · have := ih _ c.2 ideal (hc.check_other (Ne.symm hip)) htimely hle
      unfold answers own at this ⊢
      simp only [trace, List.filter_cons, hip, decide_false, Bool.false_eq_true, if_false, this]

/-! ## Eviction is invisible -/

/-- The limiter after a sequence of calls. -/
def after (call : RateLimiter → String → ℤ → Bool × RateLimiter) (l : RateLimiter)
    (calls : List (String × ℤ)) : RateLimiter :=
  calls.foldl (fun l c => (call l c.1 c.2).2) l

/-- The limiters with and without purges, as the client sees them. -/
structure Twins (maxPerWindow : ℕ) (window : ℤ) (ip : String) (now : ℤ) (l l' : RateLimiter) :
    Prop where
  max_eq : l'.maxPerWindow = maxPerWindow
  window_eq : l'.window = window
  sees : l.Sees maxPerWindow window ip now (l'.slot ip)

namespace Twins

variable {l' : RateLimiter}

theorem mono (h : Twins maxPerWindow window ip now l l') (hle : now ≤ later) :
    Twins maxPerWindow window ip later l l' :=
  ⟨h.max_eq, h.window_eq, h.sees.mono hle⟩

/-- A call of the client in both limiters. -/
theorem check_self (hmax : 1 ≤ maxPerWindow) (hwindow : 0 ≤ window)
    (h : Twins maxPerWindow window ip now l l') :
    (l.check ip now).1 = (l'.checkUnevicted ip now).1 ∧
      Twins maxPerWindow window ip now (l.check ip now).2 (l'.checkUnevicted ip now).2 := by
  obtain ⟨hanswer, hnext⟩ := h.sees.check_self hmax hwindow
  rw [checkUnevicted_eq_step, h.max_eq, h.window_eq]
  refine ⟨hanswer, rfl, rfl, ?_⟩
  dsimp only [slot]
  rw [lookup_setEntry_self]
  exact hnext

/-- The calls of a sequence, and of its part that belongs to the client. -/
theorem after_own (hmax : 1 ≤ maxPerWindow) (hwindow : 0 ≤ window) :
    ∀ (calls : List (String × ℤ)) (l l' : RateLimiter) (now : ℤ),
      Twins maxPerWindow window ip now l l' → Timely (calls ++ [(ip, later)]) →
        (∀ c ∈ calls ++ [(ip, later)], now ≤ c.2) →
          Twins maxPerWindow window ip later (after check l calls)
            (after checkUnevicted l' (own ip calls)) := by
  intro calls
  induction calls with
  | nil =>
    intro l l' now h _ hnow
    exact h.mono (hnow _ List.mem_cons_self)
  | cons c calls ih =>
    intro l l' now h htimely hnow
    obtain ⟨hle, htimely⟩ := List.pairwise_cons.1 htimely
    have hc := h.mono (hnow c List.mem_cons_self)
    by_cases hip : c.1 = ip
    · subst hip
      have hown : own c.1 (c :: calls) = c :: own c.1 calls := by simp [own]
      rw [hown]
      exact ih _ _ c.2 (hc.check_self hmax hwindow).2 htimely hle
    · have hown : own ip (c :: calls) = own ip calls := by simp [own, hip]
      rw [hown]
      exact ih _ l' c.2 ⟨hc.max_eq, hc.window_eq, hc.sees.check_other (Ne.symm hip)⟩ htimely hle

end Twins

/-- For every limit of at least one and every window, each call of a client is answered as by a fresh
limiter that purges nothing, on the calls of this client alone. -/
theorem eviction_invisible (maxPerWindow window : ℕ) (hmax : 1 ≤ maxPerWindow)
    (calls : List (String × ℤ)) (ip : String) (now : ℤ) (htimely : Timely (calls ++ [(ip, now)])) :
    ((after check (new maxPerWindow window) calls).check ip now).1 =
      ((after checkUnevicted (new maxPerWindow window) (own ip calls)).checkUnevicted ip now).1 := by
  have hwindow : (0 : ℤ) ≤ window := Int.natCast_nonneg _
  obtain ⟨start, hstart⟩ := exists_start htimely
  have htwins := Twins.after_own hmax hwindow calls (new maxPerWindow window)
    (new maxPerWindow window) start ⟨rfl, rfl, sees_new maxPerWindow window ip start⟩ htimely hstart
  exact (htwins.check_self hmax hwindow).1

section

theorem setEntry_of_notMem {e : ℕ × ℤ} {rs : List (String × ℕ × ℤ)} (h : ip ∉ rs.map Prod.fst) :
    setEntry ip e rs = rs ++ [(ip, e)] := by
  induction rs with
  | nil => rfl
  | cons r rs ih =>
    obtain ⟨hr, hrs⟩ := not_or.1 (List.mem_cons.not.1 h)
    rw [setEntry, if_neg (Ne.symm hr), ih hrs, List.cons_append]

/-- The first call of a client while all windows are open makes its entry, and nothing is purged. -/
theorem check_first (hmax : 1 ≤ l.maxPerWindow) (hwindow : 0 ≤ l.window)
    (hopen : ∀ e ∈ l.requests, now - e.2.2 ≤ l.window) (hip : ip ∉ l.requests.map Prod.fst) :
    (l.check ip now).2 = { l with requests := l.requests ++ [(ip, 1, now)] } := by
  have hretained : l.retained now = l.requests := by
    unfold retained
    split_ifs
    · exact List.filter_eq_self.2 fun e he => decide_eq_true (hopen e he)
    · rfl
  have hlookup : l.requests.lookup ip = none := by
    rw [List.lookup_eq_none_iff]
    exact fun e he => bne_iff_ne.2 fun heq => hip (heq ▸ List.mem_map_of_mem he)
  have hzero : ¬ now - now > l.window := by omega
  have hroom : 0 < l.maxPerWindow := hmax
  unfold check
  simp only [hretained, hlookup, Option.getD_none, if_neg hzero, if_pos hroom, setEntry_of_notMem hip]

theorem after_append (calls calls' : List (String × ℤ)) :
    after check l (calls ++ calls') = after check (after check l calls) calls' := List.foldl_append

theorem after_firsts (hmax : 1 ≤ l.maxPerWindow) (hwindow : 0 ≤ l.window) {ips : List String}
    (hopen : ∀ e ∈ l.requests, now - e.2.2 ≤ l.window)
    (hnodup : (l.requests.map Prod.fst ++ ips).Nodup) :
    after check l (ips.map (·, now)) = { l with requests := l.requests ++ ips.map (·, 1, now) } := by
  induction ips generalizing l with
  | nil => simp [after]
  | cons ip ips ih =>
    have hip : ip ∉ l.requests.map Prod.fst := fun h =>
      (List.nodup_append.1 hnodup).2.2 _ h _ List.mem_cons_self rfl
    have hnext := ih (l := (l.check ip now).2)
    rw [check_first hmax hwindow hopen hip] at hnext
    have hstep : after check l ((ip :: ips).map (·, now)) =
        after check (l.check ip now).2 (ips.map (·, now)) := rfl
    rw [hstep, check_first hmax hwindow hopen hip, hnext hmax hwindow ?_ ?_]
    · simp
    · intro e he
      rcases List.mem_append.1 he with he | he
      · exact hopen e he
      · rw [List.mem_singleton.1 he]
        simpa using hwindow
    · simpa using hnodup

/-- A client calls, then others in its window, and one more when all their windows are over. -/
def crowdedCalls (ips : List String) : List (String × ℤ) :=
  ("10.0.0.1", 0) :: ips.map (·, 5) ++ [("10.0.0.2", 100)]

/-- All entries are purged when the last one calls. -/
theorem after_crowdedCalls {ips : List String} (hips : ("10.0.0.1" :: ips).Nodup)
    (hlen : 1000 ≤ ips.length) :
    after check (new 1 60) (crowdedCalls ips) = ⟨[("10.0.0.2", 1, 100)], 1, 60⟩ := by
  have hcrowd : after check (new 1 60) (("10.0.0.1", 0) :: ips.map (·, 5)) =
      ⟨("10.0.0.1", 1, 0) :: ips.map (·, 1, 5), 1, 60⟩ :=
    after_firsts (l := ⟨[("10.0.0.1", 1, 0)], 1, 60⟩) (by decide) (by decide) (by decide) hips
  have hretained : retained ⟨("10.0.0.1", 1, 0) :: ips.map (·, 1, 5), 1, 60⟩ 100 = [] := by
    unfold retained
    rw [if_pos (by simpa using Nat.lt_succ_of_le hlen), List.filter_eq_nil_iff]
    intro e he
    rcases List.mem_cons.1 he with rfl | he
    · simp
    · obtain ⟨_, -, rfl⟩ := List.mem_map.1 he
      simp
  rw [crowdedCalls, after_append, hcrowd, after, List.foldl_cons, List.foldl_nil, check]
  simp only [hretained]
  rfl

theorem timely_append_singleton {calls : List (String × ℤ)} {c : String × ℤ} (h : Timely calls)
    (hc : ∀ d ∈ calls, d.2 ≤ c.2) : Timely (calls ++ [c]) := by
  refine List.pairwise_append.2 ⟨h, List.pairwise_singleton _ _, fun d hd e he => ?_⟩
  rw [List.mem_singleton.1 he]
  exact hc d hd

theorem crowdedCalls_le (ips : List String) : ∀ c ∈ crowdedCalls ips, c.2 ≤ 100 := by
  intro c hc
  rcases List.mem_append.1 hc with hc | hc
  · rcases List.mem_cons.1 hc with rfl | hc
    · decide
    · obtain ⟨_, -, rfl⟩ := List.mem_map.1 hc
      simp
  · rw [List.mem_singleton.1 hc]

theorem timely_crowdedCalls (ips : List String) : Timely (crowdedCalls ips) := by
  refine timely_append_singleton (List.pairwise_cons.2 ⟨fun c hc => ?_, ?_⟩)
    fun c hc => crowdedCalls_le ips c (List.mem_append_left _ hc)
  · obtain ⟨_, -, rfl⟩ := List.mem_map.1 hc
    simp
  · exact List.pairwise_map.2 (List.pairwise_of_forall fun _ _ => le_rfl)

/-- The addresses `x`, `xx`, and so on. -/
def crowd : List String := (List.range 1000).map fun i => String.ofList (List.replicate (i + 1) 'x')

theorem nodup_crowd : ("10.0.0.1" :: crowd).Nodup := by
  refine List.nodup_cons.2 ⟨fun h => ?_, List.Nodup.map (fun i j h => ?_) List.nodup_range⟩
  · obtain ⟨i, -, hi⟩ := List.mem_map.1 h
    have hx : '1' ∈ (String.ofList (List.replicate (i + 1) 'x')).toList := by
      rw [hi]
      decide
    simp at hx
  · have hlen := congrArg (fun s : String => s.toList.length) h
    simpa using hlen

end

/-- The entry of a client is evicted and made again: its call after that is accepted, and the next one is
refused, as they are without the eviction. -/
theorem eviction_invisible_crowd :
    (after check (new 1 60) [("10.0.0.1", 0)]).slot "10.0.0.1" = some (1, 0) ∧
    (after check (new 1 60) (crowdedCalls crowd)).slot "10.0.0.1" = none ∧
    ((after check (new 1 60) (crowdedCalls crowd)).check "10.0.0.1" 101).1 =
      ((after checkUnevicted (new 1 60) (own "10.0.0.1" (crowdedCalls crowd))).checkUnevicted
        "10.0.0.1" 101).1 ∧
    ((after check (new 1 60) (crowdedCalls crowd ++ [("10.0.0.1", 101)])).check "10.0.0.1" 102).1 = false ∧
    ((after checkUnevicted (new 1 60) (own "10.0.0.1" (crowdedCalls crowd ++ [("10.0.0.1", 101)]))
      ).checkUnevicted "10.0.0.1" 102).1 = false := by
  have hfirst : Timely (crowdedCalls crowd ++ [("10.0.0.1", 101)]) :=
    timely_append_singleton (timely_crowdedCalls _) fun d hd =>
      (crowdedCalls_le _ d hd).trans (by decide)
  have hsecond : Timely (crowdedCalls crowd ++ [("10.0.0.1", 101)] ++ [("10.0.0.1", 102)]) := by
    refine timely_append_singleton hfirst fun d hd => ?_
    rcases List.mem_append.1 hd with hd | hd
    · exact (crowdedCalls_le _ d hd).trans (by decide)
    · rw [List.mem_singleton.1 hd]
      decide
  have hlen : 1000 ≤ crowd.length := by simp [crowd]
  have hevicted := after_crowdedCalls nodup_crowd hlen
  have hrefused : ((after check (new 1 60) (crowdedCalls crowd ++ [("10.0.0.1", 101)])).check
      "10.0.0.1" 102).1 = false := by
    rw [after_append, hevicted]
    decide
  refine ⟨rfl, by rw [hevicted]; rfl, eviction_invisible 1 60 (by decide) _ _ _ hfirst, hrefused, ?_⟩
  exact (eviction_invisible 1 60 (by decide) _ _ _ hsecond).symm.trans hrefused

/-! ## The limit -/

/-- The calls of `ip` that are accepted. -/
def Checked.acceptedOf (ip : String) (c : Checked) : Bool := c.ip = ip && c.answer.accepted

/-- The limiter enforces its limit on every sequence of calls: twice for an interval no longer than the
window, and once from a reset of a client's window (the entry is made or started over) to the next. -/
structure Enforces (maxPerWindow window : ℕ) : Prop where
  interval : ∀ (calls : List (String × ℤ)) (ip : String) (a b : ℤ), Timely calls →
    b - a ≤ window →
      ((trace (new maxPerWindow window) calls).countP fun c =>
        c.acceptedOf ip && a ≤ c.answer.time && c.answer.time ≤ b) ≤ 2 * maxPerWindow
  between : ∀ (calls : List (String × ℤ)) (ip : String) (pre mid post : List Checked) (r : Checked),
    Timely calls → trace (new maxPerWindow window) calls = pre ++ (r :: mid ++ post) →
      r.ip = ip → r.answer.opened = true → (∀ c ∈ mid, c.ip = ip → c.answer.opened = false) →
        (r :: mid).countP (Checked.acceptedOf ip) ≤ maxPerWindow

theorem countP_answers (ip : String) (p : Answer ℤ → Bool) (cs : List Checked) :
    (cs.countP fun c => c.ip = ip && p c.answer) = (answers ip cs).countP p := by
  rw [answers, List.countP_map, List.countP_filter]
  refine List.countP_congr fun c _ => ?_
  simp [and_comm]

theorem timely_own {calls : List (String × ℤ)} (h : Timely calls) (ip : String) :
    ((own ip calls).map Prod.snd).Pairwise (· ≤ ·) :=
  List.pairwise_map.2 (h.filter _)

/-- The answers to a client's calls, from the limiter's start. -/
theorem answers_new {maxPerWindow window : ℕ} (hmax : 1 ≤ maxPerWindow)
    {calls : List (String × ℤ)} (htimely : Timely calls) (ip : String) :
    answers ip (trace (new maxPerWindow window) calls) =
      run maxPerWindow (window : ℤ) none ((own ip calls).map Prod.snd) := by
  obtain ⟨start, hstart⟩ := exists_start htimely
  exact answers_eq_run hmax (Int.natCast_nonneg _) calls _ start none
    (sees_new maxPerWindow window ip start) htimely hstart

theorem enforces_of_pos {maxPerWindow window : ℕ} (hmax : 1 ≤ maxPerWindow) :
    Enforces maxPerWindow window where
  interval := by
    intro calls ip a b htimely hab
    have hbound := accepted_within hmax (Int.natCast_nonneg window) hab
      ((own ip calls).map Prod.snd) none (fun s hs => by cases hs) (timely_own htimely ip)
    rw [← answers_new hmax htimely ip, accepted, ← countP_answers] at hbound
    simpa only [Checked.acceptedOf, Bool.and_assoc] using hbound
  between := by
    intro calls ip pre mid post r htimely htrace hr hopened hmid
    have hrun : answers ip (trace (new maxPerWindow window) calls) = _ := answers_new hmax htimely ip
    rw [htrace] at hrun
    have hsplit : answers ip (pre ++ (r :: mid ++ post)) =
        answers ip pre ++ (r.answer :: answers ip mid ++ answers ip post) := by
      simp [answers, hr]
    have hmid' : ∀ x ∈ answers ip mid, x.opened = false := by
      intro x hx
      obtain ⟨c, hc, rfl⟩ := List.mem_map.1 hx
      obtain ⟨hc, hip⟩ := List.mem_filter.1 hc
      exact hmid c hc (of_decide_eq_true hip)
    have hbound := accepted_of_opened hmax (Int.natCast_nonneg window) hopened hmid' _ none _
      (hrun.symm.trans hsplit)
    have hcons : r.answer :: answers ip mid = answers ip (r :: mid) := by simp [answers, hr]
    rw [hcons, ← countP_answers] at hbound
    exact hbound

/-- With the limit 0 the call that finds its window over is accepted. -/
theorem countP_trace_zero (window : ℕ) (ip : String) :
    ((trace (new 0 window) [(ip, 0), (ip, window + 1)]).countP fun c =>
      c.acceptedOf ip && (window : ℤ) + 1 ≤ c.answer.time && c.answer.time ≤ (window : ℤ) + 1) = 1 := by
  have hfirst : (new 0 window).check ip 0 = (false, ⟨[(ip, 0, 0)], 0, window⟩) := by
    have hopen : ¬(window : ℤ) < 0 := not_lt.2 (Int.natCast_nonneg _)
    simp [check, retained, new, setEntry, hopen]
  have hsecond : (RateLimiter.check ⟨[(ip, 0, 0)], 0, window⟩ ip (window + 1)).1 = true := by
    simp [check, retained]
  simp [trace, hfirst, hsecond, Checked.acceptedOf]

/-- The limiter enforces its limit just when the limit is at least one. -/
theorem enforces_iff (maxPerWindow window : ℕ) :
    Enforces maxPerWindow window ↔ 1 ≤ maxPerWindow := by
  refine ⟨fun h => ?_, enforces_of_pos⟩
  by_contra hmax
  obtain rfl : maxPerWindow = 0 := by omega
  have hbound := h.interval [("127.0.0.1", 0), ("127.0.0.1", (window : ℤ) + 1)] "127.0.0.1"
    (window + 1) (window + 1) (by simp [Timely]; omega) (by omega)
  rw [countP_trace_zero] at hbound
  omega

/-- With the limit 0 and a window of 60, the second call is accepted at 61, and it is the only call
since the reset of its window. -/
theorem limit_zero_accepts :
    Timely [("127.0.0.1", 0), ("127.0.0.1", 61)] ∧
      trace (new 0 60) [("127.0.0.1", 0), ("127.0.0.1", 61)] =
        [⟨"127.0.0.1", 0, false, true⟩, ⟨"127.0.0.1", 61, true, true⟩] ∧
      ¬(((trace (new 0 60) [("127.0.0.1", 0), ("127.0.0.1", 61)]).countP fun c =>
        c.acceptedOf "127.0.0.1" && 61 ≤ c.answer.time && c.answer.time ≤ 61) ≤ 2 * 0) ∧
      ¬(([⟨"127.0.0.1", 61, true, true⟩] : List Checked).countP
        (Checked.acceptedOf "127.0.0.1") ≤ 0) := by
  decide

end RateLimiter

end LightningRelay
