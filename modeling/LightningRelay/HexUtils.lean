import LightningRelay.Codec.Hex

/-!
# Hex strings

`to_vec` and `hex_str` of `hex_utils.rs`.  `to_vec` looks at one digit after the other and stores a
byte after every second one, so that a last digit without a partner is read and dropped.

* `toVec_eq`: `to_vec` reads the text without such a digit.
* `toVec_iff_encodes`: it accepts just the encodings of its result, unless a digit is left over.
-/

set_option autoImplicit false

namespace LightningRelay

open Codec

/-- The UTF-8 bytes of a text (`str::as_bytes`). -/
def asBytes (s : String) : List UInt8 := s.toList.flatMap String.utf8EncodeChar

namespace HexUtils

/-- The value of a byte that is a hex digit. -/
def nibble? (c : UInt8) : Option UInt8 :=
  if 65 ≤ c ∧ c ≤ 70 then some (c - 65 + 10)
  else if 97 ≤ c ∧ c ≤ 102 then some (c - 97 + 10)
  else if 48 ≤ c ∧ c ≤ 57 then some (c - 48)
  else none

/-- The loop of `to_vec` from the index `idx` on: `b` is the byte under way, `out` are those that were
stored. -/
def toVecLoop : List UInt8 → ℕ → UInt8 → List UInt8 → Option (List UInt8)
  | [], _, _, out => some out
  | c :: cs, idx, b, out =>
    match nibble? c with
    | none => none
    | some v =>
      if idx &&& 1 = 1 then toVecLoop cs (idx + 1) 0 (out ++ [b <<< 4 ||| v])
      else toVecLoop cs (idx + 1) (b <<< 4 ||| v) out

def toVec (hex : String) : Option (List UInt8) := toVecLoop (asBytes hex) 0 0 []

def hexStr (value : List UInt8) : String :=
  String.ofList (value.flatMap fun v => Hex.padded 2 v.toNat)

/-- The text is a hex encoding of the bytes, in either case. -/
def Encodes (s : String) (bytes : List UInt8) : Prop :=
  s.length % 2 = 0 ∧ (∀ c ∈ s.toList, Hex.isDigit c = true) ∧ s.toLower = hexStr bytes

/-! ## Bytes and characters -/

theorem nibble?_ofNat : ∀ m < 128,
    nibble? (UInt8.ofNat m) = (Hex.value? (Char.ofNat m)).map UInt8.ofNat := by
  decide

theorem nibble?_eq_none {c : UInt8} (h : 128 ≤ c.toNat) : nibble? c = none := by
  have hle : ∀ k : UInt8, k.toNat < 128 → ¬ c ≤ k := by
    intro k hk hle
    rw [UInt8.le_iff_toNat_le] at hle
    omega
  simp [nibble?, hle]

/-- A character of a text is looked at as one digit, or ends the loop. -/
theorem toVecLoop_char (c : Char) (cs : List UInt8) (idx : ℕ) (b : UInt8) (out : List UInt8) :
    toVecLoop (String.utf8EncodeChar c ++ cs) idx b out =
      (Hex.value? c).bind fun n =>
        if idx &&& 1 = 1 then toVecLoop cs (idx + 1) 0 (out ++ [b <<< 4 ||| UInt8.ofNat n])
        else toVecLoop cs (idx + 1) (b <<< 4 ||| UInt8.ofNat n) out := by
  by_cases hc : c.toNat < 128
  · have henc : String.utf8EncodeChar c = [UInt8.ofNat c.toNat] := by
      have hle : c.val.toNat ≤ 127 := Nat.le_of_lt_succ hc
      exact if_pos hle
    have hnib := nibble?_ofNat c.toNat hc
    rw [Char.ofNat_toNat] at hnib
    rw [henc, List.singleton_append, toVecLoop, hnib]
    rcases Hex.value? c with _ | n <;> rfl
  · have hval : Hex.value? c = none := by
      rcases hv : Hex.value? c with _ | n
      · rfl
      · exact absurd (Hex.lt_of_isDigit (by rw [Hex.isDigit, hv]; rfl)) hc
    have hhead : ∃ x xs, String.utf8EncodeChar c = x :: xs ∧ 128 ≤ x.toNat := by
      have hgt : ¬ c.val.toNat ≤ 127 := fun hle => hc (Nat.lt_succ_of_le hle)
      have hval := c.val.toNat_lt
      unfold String.utf8EncodeChar
      dsimp only
      rw [if_neg hgt]
      split_ifs
      · exact ⟨_, _, rfl, by rw [UInt8.toNat_ofNat']; omega⟩
      · exact ⟨_, _, rfl, by rw [UInt8.toNat_ofNat']; omega⟩
      · exact ⟨_, _, rfl, by rw [UInt8.toNat_ofNat']; omega⟩
    obtain ⟨x, xs, henc, hx⟩ := hhead
    rw [henc, List.cons_append, toVecLoop, nibble?_eq_none hx, hval]
    rfl

/-- Two digits make a byte. -/
theorem byte_of_nibbles : ∀ x < 16, ∀ y < 16,
    (((0 : UInt8) <<< 4 ||| UInt8.ofNat x) <<< 4 ||| UInt8.ofNat y) = UInt8.ofNat (16 * x + y) := by
  decide

/-! ## What `to_vec` reads -/

/-- From an even index on, the loop reads the pairs of digits. -/
theorem toVecLoop_eq : ∀ (cs : List Char) (idx : ℕ) (out : List UInt8), idx % 2 = 0 →
    toVecLoop (cs.flatMap String.utf8EncodeChar) idx 0 out =
      if cs.all Hex.isDigit then (Hex.decode (cs.take (cs.length / 2 * 2))).map (out ++ ·) else none
  | [], idx, out, _ => by simp [toVecLoop, Hex.decode]
  | [a], idx, out, hidx => by
    have heven : ¬ idx &&& 1 = 1 := by
      rw [Nat.and_one_is_mod]
      omega
    rw [List.flatMap_cons, toVecLoop_char]
    rcases ha : Hex.value? a with _ | x
    · simp [Hex.isDigit, ha]
    · rw [Option.bind_some, if_neg heven]
      simp [Hex.isDigit, ha, toVecLoop, Hex.decode]
  | a :: b :: cs, idx, out, hidx => by
    have heven : ¬ idx &&& 1 = 1 := by
      rw [Nat.and_one_is_mod]
      omega
    have hodd : (idx + 1) &&& 1 = 1 := by
      rw [Nat.and_one_is_mod]
      omega
    have htake : (a :: b :: cs).take ((a :: b :: cs).length / 2 * 2) =
        a :: b :: cs.take (cs.length / 2 * 2) := by
      have hlen : (a :: b :: cs).length / 2 * 2 = cs.length / 2 * 2 + 2 := by
        simp only [List.length_cons]
        omega
      rw [hlen]
      rfl
    rw [List.flatMap_cons, List.flatMap_cons, toVecLoop_char, htake]
    rcases ha : Hex.value? a with _ | x
    · simp [Hex.isDigit, ha]
    rw [Option.bind_some, if_neg heven, toVecLoop_char]
    rcases hb : Hex.value? b with _ | y
    · simp [Hex.isDigit, hb]
    rw [Option.bind_some, if_pos hodd, byte_of_nibbles x (Hex.value?_lt ha) y (Hex.value?_lt hb),
      toVecLoop_eq cs _ _ (by omega)]
    simp only [List.all_cons, Hex.isDigit, ha, hb, Option.isSome_some, Bool.true_and, Hex.decode,
      Option.map_map]
    split_ifs
    · congr 1
      funext bytes
      simp
    · rfl

theorem toVec_eq (s : String) : toVec s =
    if s.toList.all Hex.isDigit then Hex.decode (s.toList.take (s.length / 2 * 2)) else none := by
  have h := toVecLoop_eq s.toList 0 [] rfl
  simpa [toVec, asBytes, String.length_toList] using h

theorem toList_hexStr (bytes : List UInt8) : (hexStr bytes).toList = Hex.encode bytes := by
  rw [hexStr, String.toList_ofList, Hex.encode]
  congr 1
  funext b
  have hb := b.toNat_lt
  rw [Hex.padded_two (by omega), UInt8.ofNat_toNat]

theorem encodes_iff {s : String} {bytes : List UInt8} :
    Encodes s bytes ↔ Hex.decode s.toList = some bytes := by
  have hlower : s.toLower = hexStr bytes ↔ s.toList.map Char.toLower = Hex.encode bytes := by
    have hmap : s.toLower.toList = s.toList.map Char.toLower := String.toList_map
    rw [← String.toList_inj, toList_hexStr, hmap]
  rw [Hex.decode_eq_some_iff, Encodes, hlower]
  constructor
  · exact fun h => h.2
  · intro h
    have hlen := congrArg List.length h.2
    rw [List.length_map, Hex.length_encode, String.length_toList] at hlen
    exact ⟨by omega, h⟩

theorem all_isDigit_eq_false {s : String} :
    s.toList.all Hex.isDigit = false ↔ ∃ c ∈ s.toList, Hex.isDigit c = false := by
  rw [List.all_eq_false]
  simp only [Bool.not_eq_true]

/-- Where no digit is left over, `to_vec` decodes. -/
theorem toVec_of_even {s : String} (hs : s.length % 2 = 0) : toVec s = Hex.decode s.toList := by
  have hlen : s.length / 2 * 2 = s.toList.length := by
    rw [String.length_toList]
    omega
  rw [toVec_eq, hlen, List.take_length]
  split_ifs with hdigits
  · rfl
  · rcases hdec : Hex.decode s.toList with _ | bytes
    · rfl
    · exact absurd (List.all_eq_true.2 (Hex.encode_of_decode hdec).1) hdigits

/-- What `hex_str` writes is read back. -/
theorem toVec_hexStr (value : List UInt8) : toVec (hexStr value) = some value := by
  have hlen : (hexStr value).length % 2 = 0 := by
    rw [← String.length_toList, toList_hexStr, Hex.length_encode]
    omega
  rw [toVec_of_even hlen, toList_hexStr, Hex.decode_encode]

/-- A text of digits is read, all but a last digit without a partner. -/
theorem exists_toVec {s : String} (h : s.toList.all Hex.isDigit = true) :
    ∃ bytes, toVec s = some bytes := by
  have hdigits : ∀ c ∈ s.toList.take (s.length / 2 * 2), Hex.isDigit c = true :=
    fun c hc => List.all_eq_true.1 h c (List.mem_of_mem_take hc)
  have hlen : (s.toList.take (s.length / 2 * 2)).length % 2 = 0 := by
    rw [List.length_take, String.length_toList]
    omega
  obtain ⟨bytes, hbytes⟩ := Hex.exists_decode hlen hdigits
  exact ⟨bytes, by rw [toVec_eq, if_pos h, hbytes]⟩

/-- `to_vec` accepts exactly the encodings of its result, unless it drops a digit. -/
theorem toVec_iff_encodes (s : String) (value : List UInt8) :
    ((∀ bytes, toVec s = some bytes ↔ Encodes s bytes) ↔
      s.length % 2 = 0 ∨ ∃ c ∈ s.toList, Hex.isDigit c = false) ∧
    toVec (hexStr value) = some value := by
  refine ⟨⟨fun h => ?_, fun h bytes => ?_⟩, toVec_hexStr value⟩
  · -- a text of digits is read, so it is an encoding and has none left over
    by_contra hnot
    rw [not_or, ← all_isDigit_eq_false, Bool.not_eq_false] at hnot
    obtain ⟨bytes, hread⟩ := exists_toVec hnot.2
    exact hnot.1 ((h bytes).1 hread).1
  · rw [encodes_iff]
    rcases h with h | h
    · rw [toVec_of_even h]
    · have hdigits := all_isDigit_eq_false.2 h
      rw [toVec_eq, hdigits]
      constructor
      · intro hnone
        cases hnone
      · intro hdec
        rw [List.all_eq_true.2 (Hex.encode_of_decode hdec).1] at hdigits
        cases hdigits

/-- A third digit is read and dropped. -/
theorem toVec_drops_digit :
    toVec "abc" = some [0xab] ∧ ¬ Encodes "abc" [0xab] ∧ ¬ ∃ bytes, Encodes "abc" bytes := by
  have hodd : ∀ bytes, ¬ Encodes "abc" bytes := by
    intro bytes h
    exact absurd h.1 (by decide)
  exact ⟨by decide, hodd _, fun ⟨bytes, h⟩ => hodd bytes h⟩

end HexUtils

end LightningRelay
