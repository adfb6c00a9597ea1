import Mathlib.Data.Nat.Digits.Defs
import Mathlib.Data.Nat.Digits.Lemmas
import Mathlib.Tactic.Common
import Mathlib.Tactic.IntervalCases

/-!
# Hexadecimal text

Bytes as pairs of hexadecimal digits: `encode` writes lower case, `decode` reads either case and
refuses a text with anything else in it or with a digit left over.  `padded` is a number in
hexadecimal, with zeros in front up to a width.

* `decode_eq_some_iff`: the texts that are read as some bytes are those that read like their encoding
  in lower case.
* `padded_two`, `padded_four`: a number that fits the width is the encoding of its bytes.
-/

set_option autoImplicit false

namespace Codec.Hex

/-! ## Digits -/

/-- The lower-case digit of a number below 16. -/
def digit (n : ℕ) : Char := if n < 10 then Char.ofNat (48 + n) else Char.ofNat (87 + n)

/-- The value of a digit, in either case. -/
def value? (c : Char) : Option ℕ :=
  if 48 ≤ c.toNat ∧ c.toNat ≤ 57 then some (c.toNat - 48)
  else if 97 ≤ c.toNat ∧ c.toNat ≤ 102 then some (c.toNat - 87)
  else if 65 ≤ c.toNat ∧ c.toNat ≤ 70 then some (c.toNat - 55)
  else none

/-- The character is a hexadecimal digit. -/
def isDigit (c : Char) : Bool := (value? c).isSome

variable {c : Char} {n : ℕ}

theorem value?_lt (h : value? c = some n) : n < 16 := by
  unfold value? at h
  split_ifs at h <;> simp only [Option.some.injEq] at h <;> omega

theorem lt_of_isDigit (h : isDigit c = true) : c.toNat < 128 := by
  obtain ⟨n, hn⟩ := Option.isSome_iff_exists.1 h
  unfold value? at hn
  split_ifs at hn <;> omega

theorem value?_digit (h : n < 16) : value? (digit n) = some n := by
  interval_cases n <;> decide

/-- The values of the digits, over the characters that can be digits. -/
theorem digit_of_lt : ∀ m < 128, ∀ n, value? (Char.ofNat m) = some n →
    digit n = (Char.ofNat m).toLower := by
  have h : ∀ m < 128, (value? (Char.ofNat m)).all
      (fun n => digit n = (Char.ofNat m).toLower) = true := by decide
  intro m hm n hn
  have hall := h m hm
  rw [hn, Option.all_some, decide_eq_true_eq] at hall
  exact hall

/-- A digit is the lower-case digit of its value, up to its case. -/
theorem digit_of_value? (h : value? c = some n) : digit n = c.toLower := by
  have hlt := lt_of_isDigit (c := c) (by rw [isDigit, h]; rfl)
  have hc : Char.ofNat c.toNat = c := Char.ofNat_toNat c
  rw [← hc] at h
  rw [digit_of_lt _ hlt n h, hc]

/-- Case does not matter to the value. -/
theorem value?_toLower (h : isDigit c = true) : value? c.toLower = value? c := by
  obtain ⟨n, hn⟩ := Option.isSome_iff_exists.1 h
  rw [← digit_of_value? hn, value?_digit (value?_lt hn), hn]

/-! ## Bytes -/

/-- The digits of a byte, high half first. -/
def pair (b : UInt8) : List Char := [digit (b.toNat / 16), digit (b.toNat % 16)]

def encode (bytes : List UInt8) : List Char := bytes.flatMap pair

def decode : List Char → Option (List UInt8)
  | [] => some []
  | [_] => none
  | a :: b :: cs =>
    match value? a, value? b with
    | some x, some y => (decode cs).map (UInt8.ofNat (16 * x + y) :: ·)
    | _, _ => none

theorem decode_pair_append (b : UInt8) (cs : List Char) :
    decode (pair b ++ cs) = (decode cs).map (b :: ·) := by
  have hb := b.toNat_lt
  have hx : value? (digit (b.toNat / 16)) = some (b.toNat / 16) := value?_digit (by omega)
  have hy : value? (digit (b.toNat % 16)) = some (b.toNat % 16) := value?_digit (by omega)
  have hsum : 16 * (b.toNat / 16) + b.toNat % 16 = b.toNat := by omega
  simp [pair, decode, hx, hy, hsum]

theorem decode_encode_append (bytes : List UInt8) (cs : List Char) :
    decode (encode bytes ++ cs) = (decode cs).map (bytes ++ ·) := by
  induction bytes with
  | nil => simp [encode]
  | cons b bytes ih =>
    have hcons : encode (b :: bytes) ++ cs = pair b ++ (encode bytes ++ cs) := by
      simp [encode]
    rw [hcons, decode_pair_append, ih, Option.map_map]
    rfl

theorem decode_encode (bytes : List UInt8) : decode (encode bytes) = some bytes := by
  have h := decode_encode_append bytes []
  simpa [decode] using h

theorem length_encode (bytes : List UInt8) : (encode bytes).length = 2 * bytes.length := by
  induction bytes with
  | nil => rfl
  | cons b bytes ih =>
    rw [encode, List.flatMap_cons, List.length_append, ← encode, ih, List.length_cons]
    simp only [pair, List.length_cons, List.length_nil]
    omega

/-- Reading does not depend on the case. -/
theorem decode_map_toLower : ∀ (cs : List Char), (∀ c ∈ cs, isDigit c = true) →
    decode (cs.map Char.toLower) = decode cs
  | [], _ => rfl
  | [_], _ => rfl
  | a :: b :: cs, h => by
    have ha := value?_toLower (h a (by simp))
    have hb := value?_toLower (h b (by simp))
    have ih := decode_map_toLower cs fun c hc => h c (by simp [hc])
    simp only [List.map_cons, decode, ha, hb, ih]

/-- What is read consists of digits, and reads like its encoding in lower case. -/
theorem encode_of_decode : ∀ {cs : List Char} {bytes : List UInt8}, decode cs = some bytes →
    (∀ c ∈ cs, isDigit c = true) ∧ cs.map Char.toLower = encode bytes
  | [], bytes, h => by
    obtain rfl := Option.some.inj h
    exact ⟨by simp, rfl⟩
  | [_], _, h => by cases h
  | a :: b :: cs, bytes, h => by
    rw [decode] at h
    split at h
    next x y hx hy =>
      obtain ⟨rest, hrest, rfl⟩ := Option.map_eq_some_iff.1 h
      obtain ⟨hdigits, hlower⟩ := encode_of_decode hrest
      have hx16 := value?_lt hx
      have hy16 := value?_lt hy
      have hbyte : (UInt8.ofNat (16 * x + y)).toNat = 16 * x + y := by
        rw [UInt8.toNat_ofNat']
        omega
      constructor
      · intro c hc
        rcases List.mem_cons.1 hc with rfl | hc
        · rw [isDigit, hx]
          rfl
        rcases List.mem_cons.1 hc with rfl | hc
        · rw [isDigit, hy]
          rfl
        · exact hdigits c hc
      · have hdiv : (16 * x + y) / 16 = x := by omega
        have hmod : (16 * x + y) % 16 = y := by omega
        simp only [List.map_cons, encode, List.flatMap_cons, pair, hbyte, hdiv, hmod,
          digit_of_value? hx, digit_of_value? hy, hlower]
        rfl
    next => cases h

theorem decode_eq_some_iff {cs : List Char} {bytes : List UInt8} : decode cs = some bytes ↔
    (∀ c ∈ cs, isDigit c = true) ∧ cs.map Char.toLower = encode bytes := by
  constructor
  · exact encode_of_decode
  · rintro ⟨hdigits, hlower⟩
    rw [← decode_map_toLower cs hdigits, hlower, decode_encode]

/-- Digits are read when none is left over. -/
theorem exists_decode : ∀ {cs : List Char}, cs.length % 2 = 0 → (∀ c ∈ cs, isDigit c = true) →
    ∃ bytes, decode cs = some bytes
  | [], _, _ => ⟨[], rfl⟩
  | [_], h, _ => by cases h
  | a :: b :: cs, h, hdigits => by
    have hlen : cs.length % 2 = 0 := by
      simp only [List.length_cons] at h
      omega
    obtain ⟨bytes, hbytes⟩ := exists_decode hlen fun c hc => hdigits c (by simp [hc])
    obtain ⟨x, hx⟩ := Option.isSome_iff_exists.1 (hdigits a (by simp))
    obtain ⟨y, hy⟩ := Option.isSome_iff_exists.1 (hdigits b (by simp))
    exact ⟨UInt8.ofNat (16 * x + y) :: bytes, by simp [decode, hx, hy, hbytes]⟩

/-! ## Numbers -/

/-- A number in hexadecimal, with zeros in front up to a positive width. -/
def padded (width n : ℕ) : List Char :=
  List.replicate (width - (Nat.digits 16 n).length) '0' ++ ((Nat.digits 16 n).map digit).reverse

theorem padded_succ (width n : ℕ) :
    padded (width + 1) n = padded width (n / 16) ++ [digit (n % 16)] := by
  rcases Nat.eq_zero_or_pos n with rfl | hn
  · simp only [padded, Nat.digits_zero, List.length_nil, Nat.sub_zero, List.replicate_succ',
      List.map_nil, List.reverse_nil, List.append_nil, Nat.zero_div, Nat.zero_mod]
    rfl
  · rw [padded, Nat.digits_def' (by decide) hn]
    simp [padded]

theorem padded_zero : padded 0 0 = [] := rfl

/-- Two digits are one byte. -/
theorem padded_two (h : n < 256) : padded 2 n = pair (UInt8.ofNat n) := by
  have hb : (UInt8.ofNat n).toNat = n := by
    rw [UInt8.toNat_ofNat']
    omega
  have hhigh : n / 16 / 16 = 0 := by omega
  have hlow : n / 16 % 16 = n / 16 := by omega
  rw [padded_succ, padded_succ, hhigh, padded_zero, hlow, pair, hb]
  rfl

/-- Four digits are two bytes, the high one first. -/
theorem padded_four (h : n < 65536) :
    padded 4 n = encode [UInt8.ofNat (n / 256), UInt8.ofNat (n % 256)] := by
  have hhigh : n / 16 / 16 = n / 256 := by omega
  have hlow : n / 16 % 16 = n % 256 / 16 := by omega
  have hmod : n % 16 = n % 256 % 16 := by omega
  have hb : (UInt8.ofNat (n % 256)).toNat = n % 256 := by
    rw [UInt8.toNat_ofNat']
    omega
  rw [padded_succ, padded_succ, hhigh, padded_two (by omega), hlow, hmod]
  simp [encode, pair, hb]

end Codec.Hex
