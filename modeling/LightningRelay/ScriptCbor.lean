import LightningRelay.Codec.Cbor
import LightningRelay.Codec.Hex

/-!
# The wrapped script

`start_ldk` reads the script as hex and puts the header of a CBOR byte string in front of it.  The
header is written as text, with two digits for the length or with four at least.

* `script_cbor_iff`: the result is the byte string with the script as its content, just when the script
  has fewer than 65536 bytes.
-/

set_option autoImplicit false

namespace LightningRelay

open Codec

/-- The text that `start_ldk` builds from the text of the script file. -/
def scriptCbor (scriptCborRaw : String) : String :=
  let scriptBytesLen := scriptCborRaw.utf8ByteSize / 2
  if scriptBytesLen < 24 then String.ofList (Hex.padded 2 (0x40 + scriptBytesLen)) ++ scriptCborRaw
  else if scriptBytesLen < 256 then
    "58" ++ String.ofList (Hex.padded 2 scriptBytesLen) ++ scriptCborRaw
  else "59" ++ String.ofList (Hex.padded 4 scriptBytesLen) ++ scriptCborRaw

/-- The text is the hex of one CBOR byte string with this content. -/
def IsByteString (text : String) (content : List UInt8) : Prop :=
  ∃ bytes, Hex.decode text.toList = some bytes ∧ Cbor.decodeBytes bytes = some (content, [])

namespace ScriptCbor

/-- Digits take one byte each. -/
theorem utf8ByteSize_of_digits : ∀ (cs : List Char), (∀ c ∈ cs, Hex.isDigit c = true) →
    (String.ofList cs).utf8ByteSize = cs.length
  | [], _ => rfl
  | c :: cs, h => by
    have hsize : c.utf8Size = 1 := by
      rw [Char.utf8Size_eq_one_iff, UInt32.le_iff_toNat_le]
      exact Nat.le_of_lt_succ (Hex.lt_of_isDigit (h c (by simp)))
    have ih := utf8ByteSize_of_digits cs fun d hd => h d (by simp [hd])
    rw [String.ofList_cons, String.utf8ByteSize_append, String.utf8ByteSize_singleton, hsize, ih,
      List.length_cons, Nat.add_comm]

/-- The length that is computed is the number of bytes. -/
theorem bytesLen_eq {raw : String} {script : List UInt8} (h : Hex.decode raw.toList = some script) :
    raw.utf8ByteSize / 2 = script.length := by
  obtain ⟨hdigits, hlower⟩ := Hex.encode_of_decode h
  have hsize := utf8ByteSize_of_digits raw.toList hdigits
  have hlen := congrArg List.length hlower
  rw [List.length_map, Hex.length_encode] at hlen
  rw [String.ofList_toList] at hsize
  omega

section

variable {raw : String} {script : List UInt8}

theorem toNat_ofNat {n : ℕ} (h : n < 256) : (UInt8.ofNat n).toNat = n := by
  rw [UInt8.toNat_ofNat']
  omega

/-- The length in the initial byte. -/
theorem isByteString_short (h : Hex.decode raw.toList = some script) (hlen : script.length < 24) :
    IsByteString (scriptCbor raw) script := by
  have hb : (UInt8.ofNat (0x40 + script.length)).toNat = 64 + script.length :=
    toNat_ofNat (by omega)
  refine ⟨UInt8.ofNat (0x40 + script.length) :: script, ?_, Cbor.decodeBytes_cons ?_ ?_⟩
  · rw [scriptCbor, bytesLen_eq h, if_pos hlen, String.toList_append, String.toList_ofList,
      Hex.padded_two (by omega), Hex.decode_pair_append, h]
    rfl
  · omega
  · have hinfo : (64 + script.length) % 32 = script.length := by omega
    rw [hb, hinfo, List.append_nil]
    exact if_pos hlen

/-- The length in one byte. -/
theorem isByteString_medium (h : Hex.decode raw.toList = some script) (hlow : ¬ script.length < 24)
    (hlen : script.length < 256) : IsByteString (scriptCbor raw) script := by
  have hhead : "58".toList = Hex.pair 0x58 := by decide
  refine ⟨0x58 :: UInt8.ofNat script.length :: script, ?_, Cbor.decodeBytes_cons (by decide) ?_⟩
  · rw [scriptCbor, bytesLen_eq h, if_neg hlow, if_pos hlen, String.toList_append,
      String.toList_append, hhead, String.toList_ofList, Hex.padded_two hlen, List.append_assoc,
      Hex.decode_pair_append, Hex.decode_pair_append, h]
    rfl
  · show Cbor.bigEndian 1 (UInt8.ofNat script.length :: script) = _
    rw [Cbor.bigEndian_one, toNat_ofNat hlen, List.append_nil]

/-- The length in two bytes. -/
theorem isByteString_long (h : Hex.decode raw.toList = some script) (hlow : ¬ script.length < 256)
    (hlen : script.length < 65536) : IsByteString (scriptCbor raw) script := by
  have hhead : "59".toList = Hex.pair 0x59 := by decide
  have hvalue : 256 * (UInt8.ofNat (script.length / 256)).toNat +
      (UInt8.ofNat (script.length % 256)).toNat = script.length := by
    rw [toNat_ofNat (by omega), toNat_ofNat (by omega)]
    omega
  refine ⟨0x59 :: UInt8.ofNat (script.length / 256) :: UInt8.ofNat (script.length % 256) :: script, ?_,
    Cbor.decodeBytes_cons (by decide) ?_⟩
  · rw [scriptCbor, bytesLen_eq h, if_neg (by omega), if_neg hlow, String.toList_append,
      String.toList_append, hhead, String.toList_ofList, Hex.padded_four hlen, List.append_assoc,
      Hex.decode_pair_append, Hex.decode_encode_append, h]
    rfl
  · show Cbor.bigEndian 2 (_ :: _ :: script) = _
    rw [Cbor.bigEndian_two, hvalue, List.append_nil]

/-- From 65536 bytes on the two bytes after `59` cannot hold the length. -/
theorem not_isByteString (h : Hex.decode raw.toList = some script) (hlen : 65536 ≤ script.length) :
    ¬ IsByteString (scriptCbor raw) script := by
  rintro ⟨bytes, hdec, hcbor⟩
  have hhead : "59".toList = Hex.pair 0x59 := by decide
  rw [scriptCbor, bytesLen_eq h, if_neg (by omega), if_neg (by omega), String.toList_append,
    String.toList_append, hhead, List.append_assoc, Hex.decode_pair_append] at hdec
  obtain ⟨rest, -, rfl⟩ := Option.map_eq_some_iff.1 hdec
  obtain ⟨tail, harg⟩ := Cbor.length_of_decodeBytes hcbor
  have hlt : script.length < 65536 := Cbor.bigEndian_two_lt harg
  omega

/-- For every script in hex: the wrapped text is the hex of one CBOR byte string with the script as its
content, just when the script has fewer than 65536 bytes. -/
theorem script_cbor_iff (h : Hex.decode raw.toList = some script) :
    IsByteString (scriptCbor raw) script ↔ raw.utf8ByteSize / 2 < 65536 := by
  rw [bytesLen_eq h]
  constructor
  · intro hstring
    by_contra hlen
    exact not_isByteString h (by omega) hstring
  · intro hlen
    by_cases hshort : script.length < 24
    · exact isByteString_short h hshort
    by_cases hmedium : script.length < 256
    · exact isByteString_medium h hshort hmedium
    · exact isByteString_long h hmedium hlen

end

/-- A script of two bytes. -/
theorem script_cbor_iff_short : Hex.decode "4D01".toList = some [0x4d, 0x01] ∧
    scriptCbor "4D01" = "424D01" ∧
    (IsByteString (scriptCbor "4D01") [0x4d, 0x01] ↔ "4D01".utf8ByteSize / 2 < 65536) :=
  ⟨by decide, by decide, script_cbor_iff (by decide)⟩

/-- The hex of `n` zero bytes. -/
def zeros (n : ℕ) : String := String.ofList (Hex.encode (List.replicate n 0))

/-- A script of 65536 bytes gets the header `5910000`, in which the length takes five digits. -/
theorem script_cbor_overflows :
    Hex.decode (zeros 65536).toList = some (List.replicate 65536 0) ∧
    (zeros 65536).length % 2 = 0 ∧ Hex.padded 4 65536 = "10000".toList ∧
    ¬ IsByteString (scriptCbor (zeros 65536)) (List.replicate 65536 0) := by
  have hdec : Hex.decode (zeros 65536).toList = some (List.replicate 65536 0) := by
    rw [zeros, String.toList_ofList, Hex.decode_encode]
  refine ⟨hdec, ?_, by decide, not_isByteString hdec (by rw [List.length_replicate])⟩
  rw [zeros, String.length_ofList, Hex.length_encode]
  omega

end ScriptCbor

end LightningRelay
