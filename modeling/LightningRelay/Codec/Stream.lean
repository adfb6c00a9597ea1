import Mathlib.Data.List.Basic
import Mathlib.Tactic.Common

/-!
# Items on a stream

A reader takes one item off the front of a stream.  It uses up some of the stream, and what it reads
does not depend on what follows (`stable`), so streams of whole items may be concatenated
(`readAll_append`).
-/

set_option autoImplicit false

namespace Codec

/-- A reader of items `δ` from streams of `β`. -/
structure Reader (β δ : Type) where
  read : List β → Option (δ × List β)
  shrinks : ∀ {s : List β} {d : δ} {rest : List β}, read s = some (d, rest) → rest.length < s.length
  stable : ∀ {s : List β} {d : δ} {rest : List β} (more : List β), read s = some (d, rest) →
    read (s ++ more) = some (d, rest ++ more)

namespace Reader

variable {β δ : Type} (R : Reader β δ)

/-- Read items until the stream is empty, `n` of them at most. -/
def readN : ℕ → List β → Option (List δ)
  | _, [] => some []
  | 0, _ :: _ => none
  | n + 1, b :: s =>
    match R.read (b :: s) with
    | none => none
    | some (d, rest) => (readN n rest).map (d :: ·)

/-- Read items until the stream is empty. -/
def readAll (s : List β) : Option (List δ) := R.readN s.length s

variable {R}

/-- The length of the stream is enough. -/
theorem readN_eq {n m : ℕ} : ∀ {s : List β}, s.length ≤ n → s.length ≤ m →
    R.readN n s = R.readN m s := by
  induction n generalizing m with
  | zero =>
    intro s hn _
    obtain rfl := List.length_eq_zero_iff.1 (Nat.le_zero.1 hn)
    cases m <;> rfl
  | succ n ih =>
    intro s hn hm
    cases s with
    | nil => cases m <;> rfl
    | cons b s =>
      cases m with
      | zero => exact absurd hm (Nat.not_succ_le_zero _)
      | succ m =>
        unfold readN
        rcases hread : R.read (b :: s) with _ | ⟨d, rest⟩
        · rfl
        · have hlt := R.shrinks hread
          dsimp only
          rw [ih (by omega) (by omega : rest.length ≤ m)]

theorem readAll_of_read {s rest : List β} {d : δ} (h : R.read s = some (d, rest)) :
    R.readAll s = (R.readAll rest).map (d :: ·) := by
  have hlt := R.shrinks h
  cases s with
  | nil => exact absurd hlt (Nat.not_lt_zero _)
  | cons b s =>
    rw [List.length_cons] at hlt
    rw [readAll, List.length_cons, readN, h]
    dsimp only
    rw [readN_eq (by omega : rest.length ≤ s.length) (Nat.le_refl _), readAll]

theorem read_of_readAll {s : List β} {ds : List δ} (h : R.readAll s = some ds) (hs : s ≠ []) :
    ∃ d rest ds', R.read s = some (d, rest) ∧ R.readAll rest = some ds' ∧ ds = d :: ds' := by
  cases s with
  | nil => exact absurd rfl hs
  | cons b s =>
    rcases hread : R.read (b :: s) with _ | ⟨d, rest⟩
    · rw [readAll, List.length_cons, readN, hread] at h
      cases h
    · rw [readAll_of_read hread] at h
      obtain ⟨ds', hds', rfl⟩ := Option.map_eq_some_iff.1 h
      exact ⟨d, rest, ds', rfl, hds', rfl⟩

/-- Streams of whole items are read one after the other. -/
theorem readAll_append {t : List β} {es : List δ} (ht : R.readAll t = some es) :
    ∀ {s : List β} {ds : List δ}, R.readAll s = some ds → R.readAll (s ++ t) = some (ds ++ es) := by
  intro s ds
  induction ds generalizing s with
  | nil =>
    intro h
    by_cases hs : s = []
    · subst hs
      exact ht
    · obtain ⟨_, _, _, -, -, hcons⟩ := read_of_readAll h hs
      cases hcons
  | cons d ds ih =>
    intro h
    have hs : s ≠ [] := by
      rintro rfl
      cases h
    obtain ⟨d', rest, ds', hread, hrest, hcons⟩ := read_of_readAll h hs
    obtain ⟨rfl, rfl⟩ := List.cons.inj hcons
    rw [readAll_of_read (R.stable t hread), ih hrest]
    rfl

/-- The concatenation of streams of whole items holds the items of each. -/
theorem readAll_flatten : ∀ {ss : List (List β)}, (∀ s ∈ ss, (R.readAll s).isSome) →
    ∃ all, R.readAll ss.flatten = some all ∧
      ∀ s ∈ ss, ∀ ds, R.readAll s = some ds → ds ⊆ all := by
  intro ss
  induction ss with
  | nil => exact fun _ => ⟨[], rfl, fun _ hs => absurd hs List.not_mem_nil⟩
  | cons s ss ih =>
    intro h
    obtain ⟨ds, hds⟩ := Option.isSome_iff_exists.1 (h s List.mem_cons_self)
    obtain ⟨all, hall, hsub⟩ := ih fun t ht => h t (List.mem_cons_of_mem _ ht)
    refine ⟨ds ++ all, readAll_append hall hds, fun t ht es hes => ?_⟩
    rcases List.mem_cons.1 ht with rfl | ht
    · obtain rfl := Option.some.inj (hds.symm.trans hes)
      exact List.subset_append_left _ _
    · exact List.subset_append_of_subset_right _ (hsub t ht es hes)

end Reader

end Codec
