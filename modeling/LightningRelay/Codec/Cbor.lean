import Mathlib.Data.Nat.Notation
import Mathlib.Tactic.Common

/-!
# CBOR byte strings

A decoder for the definite-length byte strings of CBOR, major type 2: the low five bits of the initial
byte hold the length itself, or say that it follows in 1, 2, 4 or 8 bytes, high byte first.
-/

set_option autoImplicit false

namespace Codec.Cbor

/-- The number in the first `w` bytes, high byte first, and what follows them. -/
def bigEndian (w : ℕ) (bytes : List UInt8) : Option (ℕ × List UInt8) :=
  if w ≤ bytes.length then
    some ((bytes.take w).foldl (fun n b => 256 * n + b.toNat) 0, bytes.drop w)
  else none

/-- The argument of an initial byte with the given low bits. The values 28 to 30 are reserved, and 31
is for strings of indefinite length. -/
def argument (info : ℕ) (bytes : List UInt8) : Option (ℕ × List UInt8) :=
  if info < 24 then some (info, bytes)
  else if info = 24 then bigEndian 1 bytes
  else if info = 25 then bigEndian 2 bytes
  else if info = 26 then bigEndian 4 bytes
  else if info = 27 then bigEndian 8 bytes
  else none

/-- The content of the byte string at the start of the input, and what follows it. -/
def decodeBytes : List UInt8 → Option (List UInt8 × List UInt8)
  | [] => none
  | b :: bytes =>
    if b.toNat / 32 = 2 then
      match argument (b.toNat % 32) bytes with
      | some (n, rest) => if n ≤ rest.length then some (rest.take n, rest.drop n) else none
      | none => none
    else none

variable {b : UInt8} {bytes content rest : List UInt8}

/-- A header that announces the length of the content is followed by the content. -/
theorem decodeBytes_cons (hmajor : b.toNat / 32 = 2)
    (harg : argument (b.toNat % 32) bytes = some (content.length, content ++ rest)) :
    decodeBytes (b :: bytes) = some (content, rest) := by
  simp [decodeBytes, hmajor, harg]

/-- The content has the length that the header announces. -/
theorem length_of_decodeBytes (h : decodeBytes (b :: bytes) = some (content, rest)) :
    ∃ tail, argument (b.toNat % 32) bytes = some (content.length, tail) := by
  simp only [decodeBytes] at h
  split_ifs at h
  rcases harg : argument (b.toNat % 32) bytes with _ | ⟨n, tail⟩
  · rw [harg] at h
    cases h
  · simp only [harg] at h
    split_ifs at h with hle
    obtain ⟨rfl, -⟩ := Prod.mk.inj (Option.some.inj h)
    exact ⟨tail, by rw [List.length_take, Nat.min_eq_left hle]⟩

theorem bigEndian_one (x : UInt8) (bytes : List UInt8) :
    bigEndian 1 (x :: bytes) = some (x.toNat, bytes) := by
  simp [bigEndian]

theorem bigEndian_two (x y : UInt8) (bytes : List UInt8) :
    bigEndian 2 (x :: y :: bytes) = some (256 * x.toNat + y.toNat, bytes) := by
  simp [bigEndian]

/-- Two bytes hold a number below 65536. -/
theorem bigEndian_two_lt {n : ℕ} (h : bigEndian 2 bytes = some (n, rest)) : n < 65536 := by
  rcases bytes with _ | ⟨x, _ | ⟨y, bytes⟩⟩
  · cases h
  · cases h
  · rw [bigEndian_two] at h
    obtain ⟨rfl, -⟩ := Prod.mk.inj (Option.some.inj h)
    have hx := x.toNat_lt
    have hy := y.toNat_lt
    omega

end Codec.Cbor
