import Mathlib.Data.Int.Notation
import Mathlib.Tactic.Common

/-!
# Text as programs read it

Splitting text at white space or at a separator, and reading decimal integers, as Rust's standard
library does.
-/

set_option autoImplicit false

namespace Codec

namespace Text

/-- The characters with the Unicode property `White_Space`. -/
def isWhitespace (c : Char) : Bool :=
  let n := c.toNat
  (9 ≤ n && n ≤ 13) || n = 0x20 || n = 0x85 || n = 0xa0 || n = 0x1680 || (0x2000 ≤ n && n ≤ 0x200a) ||
    n = 0x2028 || n = 0x2029 || n = 0x202f || n = 0x205f || n = 0x3000

/-- The pieces of a text between white space (`str::split_whitespace`). -/
def words (s : String) : List String :=
  ((s.toList.splitOnP isWhitespace).filter (· ≠ [])).map String.ofList

/-- The text without white space at its ends (`str::trim`). -/
def trim (s : String) : String :=
  String.ofList ((s.toList.dropWhile isWhitespace).reverse.dropWhile isWhitespace).reverse

/-- The pieces of a text between separators (`str::split`); there is at least one. -/
def split (sep : Char) (s : String) : List String := (s.toList.splitOn sep).map String.ofList

/-- The text before the first separator and the text after it (`str::split_once`). -/
def splitOnce (sep : Char) (s : String) : Option (String × String) :=
  if sep ∈ s.toList then
    let before := s.toList.takeWhile (· ≠ sep)
    some (String.ofList before, String.ofList (s.toList.drop (before.length + 1)))
  else none

/-- The text before the last separator and the text after it (`str::rsplit_once`). -/
def rsplitOnce (sep : Char) (s : String) : Option (String × String) :=
  (splitOnce sep (String.ofList s.toList.reverse)).map fun p =>
    (String.ofList p.2.toList.reverse, String.ofList p.1.toList.reverse)

/-- A line without its carriage return. -/
def stripCr (line : List Char) : List Char :=
  if line.getLast? = some '\r' then line.dropLast else line

/-- The lines among the pieces between line feeds: the last piece is one if it is not empty. -/
def linesOf : List (List Char) → List (List Char)
  | [] => []
  | [last] => if last = [] then [] else [last]
  | piece :: pieces => stripCr piece :: linesOf pieces

/-- The lines of a text (`str::lines`). -/
def lines (s : String) : List String := (linesOf (s.toList.splitOn '\n')).map String.ofList

section

variable {sep : Char} {s a b : String}

theorem eq_append_iff : s = a ++ String.singleton sep ++ b ↔ s.toList = a.toList ++ sep :: b.toList := by
  rw [← String.toList_inj]
  simp

theorem trim_eq_self (h : ∀ c ∈ s.toList, isWhitespace c = false) : trim s = s := by
  have hdrop : ∀ {l : List Char}, (∀ c ∈ l, isWhitespace c = false) → l.dropWhile isWhitespace = l := by
    rintro (_ | ⟨c, l⟩) hl
    · rfl
    · rw [List.dropWhile_cons_of_neg (by simp [hl c List.mem_cons_self])]
  rw [trim, hdrop h, hdrop (fun c hc => h c (List.mem_reverse.1 hc)), List.reverse_reverse,
    String.ofList_toList]

theorem notMem_of_mem_splitOn {l piece : List Char} (h : piece ∈ l.splitOn sep) : sep ∉ piece := by
  induction l generalizing piece with
  | nil =>
    obtain rfl := List.mem_singleton.1 h
    exact List.not_mem_nil
  | cons c l ih =>
    rw [List.splitOn_cons_eq_if_modifyHead] at h
    split_ifs at h with hc
    · rcases List.mem_cons.1 h with rfl | h
      · exact List.not_mem_nil
      · exact ih h
    · -- the character joins the first piece
      rcases hl : l.splitOn sep with _ | ⟨first, rest⟩
      · exact absurd hl (List.splitOn_ne_nil sep l)
      rw [hl, List.modifyHead_cons] at h
      rw [hl] at ih
      rcases List.mem_cons.1 h with rfl | h
      · have hne : sep ≠ c := fun heq => hc (by simp [heq])
        simpa [hne] using ih List.mem_cons_self
      · exact ih (List.mem_cons_of_mem _ h)

/-- A text of two pieces. -/
theorem split_eq_pair : split sep s = [a, b] ↔
    s = a ++ String.singleton sep ++ b ∧ sep ∉ a.toList ∧ sep ∉ b.toList := by
  rw [eq_append_iff]
  constructor
  · intro h
    have hpieces : s.toList.splitOn sep = [a.toList, b.toList] := by
      have := congrArg (List.map String.toList) h
      simpa [split, Function.comp_def] using this
    have hjoin : [sep].intercalate (s.toList.splitOn sep) = s.toList := List.intercalate_splitOn sep
    rw [hpieces] at hjoin
    refine ⟨?_, notMem_of_mem_splitOn (hpieces ▸ List.mem_cons_self), ?_⟩
    · rw [← hjoin]
      simp [List.intercalate, List.intersperse]
    · exact notMem_of_mem_splitOn (hpieces ▸ List.mem_cons_of_mem _ List.mem_cons_self)
  · rintro ⟨h, ha, hb⟩
    rw [split, h, List.splitOn_append_cons_of_beq _ _ (by simp), List.splitOn_eq_singleton ha,
      List.splitOn_eq_singleton hb]
    simp

theorem splitOnce_eq_some : splitOnce sep s = some (a, b) ↔
    s = a ++ String.singleton sep ++ b ∧ sep ∉ a.toList := by
  have hsplit : ∀ x y : List Char, s.toList = x ++ sep :: y → sep ∉ x →
      splitOnce sep s = some (String.ofList x, String.ofList y) := by
    intro x y h hx
    have hother : ∀ c ∈ x, decide (c ≠ sep) = true := by
      rintro c hc
      rw [decide_eq_true_eq]
      rintro rfl
      exact hx hc
    have htake : (x ++ sep :: y).takeWhile (· ≠ sep) = x := by
      rw [List.takeWhile_append_of_pos hother]
      simp
    have hmem : sep ∈ x ++ sep :: y := List.mem_append_right _ List.mem_cons_self
    rw [splitOnce, h, if_pos hmem, htake]
    simp
  rw [eq_append_iff]
  constructor
  · intro h
    have hmem : sep ∈ s.toList := by
      by_contra hmem
      rw [splitOnce, if_neg hmem] at h
      cases h
    obtain ⟨x, y, hxy, hx⟩ := List.eq_append_cons_of_mem hmem
    rw [hsplit x y hxy hx] at h
    obtain ⟨rfl, rfl⟩ := Prod.mk.inj (Option.some.inj h)
    simpa using ⟨hxy, hx⟩
  · rintro ⟨h, ha⟩
    rw [hsplit a.toList b.toList h ha, String.ofList_toList, String.ofList_toList]

theorem rsplitOnce_eq_some : rsplitOnce sep s = some (a, b) ↔
    s = a ++ String.singleton sep ++ b ∧ sep ∉ b.toList := by
  rw [rsplitOnce, Option.map_eq_some_iff, eq_append_iff]
  constructor
  · rintro ⟨⟨x, y⟩, h, heq⟩
    obtain ⟨rfl, rfl⟩ := Prod.mk.inj heq
    obtain ⟨hs, hx⟩ := splitOnce_eq_some.1 h
    rw [eq_append_iff, String.toList_ofList] at hs
    have hrev := congrArg List.reverse hs
    rw [List.reverse_reverse] at hrev
    simpa [hrev] using hx
  · rintro ⟨h, hb⟩
    refine ⟨(String.ofList b.toList.reverse, String.ofList a.toList.reverse), ?_, by simp⟩
    rw [splitOnce_eq_some, eq_append_iff]
    simpa [h] using hb

theorem rsplitOnce_eq_none : rsplitOnce sep s = none ↔ sep ∉ s.toList := by
  simp [rsplitOnce, splitOnce]

end

end Text

/-! ## Integers -/

/-- Why a text is not an integer of the type (`std::num::IntErrorKind`). -/
inductive IntError where
  | empty
  | invalidDigit
  | posOverflow
  | negOverflow
  deriving DecidableEq, Repr

/-- The text of `Display`. -/
def IntError.display : IntError → String
  | .empty => "cannot parse integer from empty string"
  | .invalidDigit => "invalid digit found in string"
  | .posOverflow => "number too large to fit in target type"
  | .negOverflow => "number too small to fit in target type"

/-- The text of the derived `Debug`. -/
def IntError.debug : IntError → String
  | .empty => "Empty"
  | .invalidDigit => "InvalidDigit"
  | .posOverflow => "PosOverflow"
  | .negOverflow => "NegOverflow"

namespace Decimal

/-- The value of a decimal digit. -/
def digit? (c : Char) : Option ℕ := if '0' ≤ c ∧ c ≤ '9' then some (c.toNat - 48) else none

/-- The digits from the value `acc` on, where `overflow` is the error of a value above `max`. -/
def digits (max : ℕ) (overflow : IntError) : List Char → ℕ → Except IntError ℕ
  | [], acc => .ok acc
  | c :: cs, acc =>
    match digit? c with
    | none => .error .invalidDigit
    | some d => if 10 * acc + d ≤ max then digits max overflow cs (10 * acc + d) else .error overflow

/-- Read an unsigned integer up to `max`. -/
def unsigned (max : ℕ) (s : String) : Except IntError ℕ :=
  match s.toList with
  | [] => .error .empty
  | ['+'] => .error .invalidDigit
  | '+' :: cs => digits max .posOverflow cs 0
  | cs => digits max .posOverflow cs 0

/-- Read a signed integer from `-(max + 1)` to `max`. -/
def signed (max : ℕ) (s : String) : Except IntError ℤ :=
  match s.toList with
  | [] => .error .empty
  | ['+'] | ['-'] => .error .invalidDigit
  | '+' :: cs => (digits max .posOverflow cs 0).map fun n => (n : ℤ)
  | '-' :: cs => (digits (max + 1) .negOverflow cs 0).map fun n => -(n : ℤ)
  | cs => (digits max .posOverflow cs 0).map fun n => (n : ℤ)

end Decimal

end Codec
