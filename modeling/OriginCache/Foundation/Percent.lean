import Mathlib.Tactic.Common
import OriginCache.Foundation.Splits

/-! Percent-encoding of texts over their UTF-8 bytes. Which bytes an encoder leaves
alone is a parameter of the encoder; a decoder undoes every such encoder. -/

namespace OriginCache.Foundation.Percent
open Foundation.Splits

/-- The UTF-8 bytes of a text. -/
def utf8 (text : List Char) : List UInt8 := text.flatMap String.utf8EncodeChar

/-- One byte as a character. -/
def latin (b : UInt8) : Char := Char.ofNat b.toNat

def upperDigits : List Char :=
  ['0', '1', '2', '3', '4', '5', '6', '7', '8', '9', 'A', 'B', 'C', 'D', 'E', 'F']

def escapeByte (b : UInt8) : List Char :=
  ['%', upperDigits.getD (b >>> 4).toNat '0', upperDigits.getD (b &&& 15).toNat '0']

def encodeByte (keep : UInt8 → Bool) (b : UInt8) : List Char :=
  if keep b then [latin b] else escapeByte b

def encodeBytes (keep : UInt8 → Bool) (bytes : List UInt8) : List Char :=
  bytes.flatMap (encodeByte keep)

def encode (keep : UInt8 → Bool) (text : List Char) : List Char := encodeBytes keep (utf8 text)

/-- What an encoder may leave alone: ASCII other than the percent sign. -/
def Plain (keep : UInt8 → Bool) : Prop := ∀ b, keep b = true → b < 0x80 ∧ b ≠ 0x25

/-- A decoder, known by what it undoes. -/
structure Decoder where
  decode : List Char → List Char
  decode_encode : ∀ keep, Plain keep → ∀ text, decode (encode keep text) = text

theorem encode_injective (decoder : Decoder) (keep : UInt8 → Bool) (plain : Plain keep) :
    Function.Injective (encode keep) :=
  Function.LeftInverse.injective (decoder.decode_encode keep plain)

theorem highDigit (b : UInt8) : (b >>> 4).toNat = b.toNat / 16 := by
  rw [UInt8.toNat_shiftRight]
  exact Nat.shiftRight_eq_div_pow b.toNat 4

theorem lowDigit (b : UInt8) : (b &&& 15).toNat = b.toNat % 16 := by
  rw [UInt8.toNat_and]
  exact Nat.and_two_pow_sub_one_eq_mod b.toNat 4

theorem not_mem_escapeByte (b : UInt8) (c : Char) (percent : c ≠ '%') (other : c ∉ upperDigits) :
    c ∉ escapeByte b := by
  intro member
  simp only [escapeByte, List.mem_cons, List.not_mem_nil, or_false] at member
  have digit : ∀ n, n < 16 → upperDigits.getD n '0' ∈ upperDigits := by decide
  have high := highDigit b
  have low := lowDigit b
  have bound := b.toNat_lt
  rcases member with rfl | rfl | rfl
  · exact percent rfl
  · exact other (digit _ (by omega))
  · exact other (digit _ (by omega))

/-- A character that is neither kept, nor a percent sign, nor a digit is never written. -/
theorem not_mem_encode (keep : UInt8 → Bool) (text : List Char) (c : Char) (percent : c ≠ '%')
    (other : c ∉ upperDigits) (dropped : ∀ b, keep b = true → latin b ≠ c) : c ∉ encode keep text := by
  intro member
  obtain ⟨b, -, written⟩ := List.mem_flatMap.mp member
  by_cases kept : keep b = true
  · rw [encodeByte, if_pos kept, List.mem_singleton] at written
    exact dropped b kept written.symm
  · rw [encodeByte, if_neg kept] at written
    exact not_mem_escapeByte b c percent other written

/-! A decoder that reads escapes where they are well formed and anything else as it
stands, and then replaces what is no UTF-8. -/

def hexValue (b : UInt8) : Option Nat :=
  if 0x30 ≤ b ∧ b ≤ 0x39 then some (b.toNat - 0x30)
  else if 0x61 ≤ b ∧ b ≤ 0x66 then some (b.toNat - 0x61 + 10)
  else if 0x41 ≤ b ∧ b ≤ 0x46 then some (b.toNat - 0x41 + 10)
  else none

@[grind =] def decodeBytes : List UInt8 → List UInt8
  | [] => []
  | [b] => [b]
  | [b, next] => [b, next]
  | b :: hi :: lo :: tail =>
      if b = 0x25 then
        match hexValue hi, hexValue lo with
        | some high, some low => UInt8.ofNat (16 * high + low) :: decodeBytes tail
        | _, _ => b :: decodeBytes (hi :: lo :: tail)
      else b :: decodeBytes (hi :: lo :: tail)

/-- The second bytes that may follow a lead byte of three or four. -/
def continues (lead second : UInt8) : Bool :=
  if lead = 0xE0 then 0xA0 ≤ second ∧ second ≤ 0xBF
  else if lead = 0xED then 0x80 ≤ second ∧ second ≤ 0x9F
  else if lead = 0xF0 then 0x90 ≤ second ∧ second ≤ 0xBF
  else if lead = 0xF4 then 0x80 ≤ second ∧ second ≤ 0x8F
  else 0xE0 ≤ lead ∧ lead < 0xF4 ∧ 0x80 ≤ second ∧ second ≤ 0xBF

/-- How many bytes one replacement character stands for. -/
@[grind =] def brokenLength (lead : UInt8) (rest : List UInt8) : Nat :=
  if continues lead (rest.headD 0) = false then 1
  else if lead < 0xF0 then 2
  else if 0x80 ≤ rest.getD 1 0 ∧ rest.getD 1 0 ≤ 0xBF then 3
  else 2

/-- `String::from_utf8_lossy`. -/
@[grind =] def fromUtf8Lossy : List UInt8 → List Char
  | [] => []
  | b :: rest =>
      match (b :: rest).toByteArray.utf8DecodeChar? 0 with
      | some c => c :: fromUtf8Lossy (rest.drop (c.utf8Size - 1))
      | none => '\uFFFD' :: fromUtf8Lossy (rest.drop (brokenLength b rest - 1))
termination_by bytes => bytes.length
decreasing_by all_goals simp only [List.length_drop, List.length_cons]; omega

def decodeLossy (text : List Char) : List Char := fromUtf8Lossy (decodeBytes (utf8 text))

theorem utf8_append (front rest : List Char) : utf8 (front ++ rest) = utf8 front ++ utf8 rest :=
  List.flatMap_append

theorem utf8_cons (c : Char) (text : List Char) : utf8 (c :: text) = String.utf8EncodeChar c ++ utf8 text :=
  List.flatMap_cons

/-- A character's bytes are read as the character, whatever follows them. -/
theorem fromUtf8Lossy_char (c : Char) (rest : List UInt8) :
    fromUtf8Lossy (String.utf8EncodeChar c ++ rest) = c :: fromUtf8Lossy rest := by
  have size := String.length_utf8EncodeChar c
  have first : (String.utf8EncodeChar c ++ rest).toByteArray.utf8DecodeChar? 0 = some c := by
    rw [List.toByteArray_append]
    exact ByteArray.utf8DecodeChar?_utf8EncodeChar_append
  cases written : String.utf8EncodeChar c with
  | nil => exact (String.utf8EncodeChar_ne_nil written).elim
  | cons b tail =>
    rw [written, List.length_cons] at size
    rw [written, List.cons_append] at first
    rw [List.cons_append, fromUtf8Lossy, first]
    have later : (tail ++ rest).drop (c.utf8Size - 1) = rest := by
      rw [← size, Nat.add_sub_cancel, List.drop_left]
    simp only [later]

/-- A valid text is read back as it was written. -/
theorem fromUtf8Lossy_utf8 (text : List Char) : fromUtf8Lossy (utf8 text) = text := by
  induction text with
  | nil => rw [show utf8 [] = [] from rfl, fromUtf8Lossy]
  | cons c text ih => rw [utf8_cons, fromUtf8Lossy_char, ih]

theorem utf8_injective : Function.Injective utf8 :=
  Function.LeftInverse.injective fromUtf8Lossy_utf8

theorem decodeBytes_plain (b : UInt8) (rest : List UInt8) (plain : b ≠ 0x25) :
    decodeBytes (b :: rest) = b :: decodeBytes rest := by
  match rest with
  | [] => rfl
  | [next] => rfl
  | hi :: lo :: tail => rw [decodeBytes, if_neg plain]

theorem utf8_latin (b : UInt8) (ascii : b < 0x80) : utf8 [latin b] = [b] := by
  have each : ∀ n, n < 128 → utf8 [Char.ofNat n] = [UInt8.ofNat n] := by decide
  have single := each b.toNat (UInt8.lt_iff_toNat_lt.mp ascii)
  rwa [UInt8.ofNat_toNat] at single

/-- Every digit is one byte, which is read as the digit's value. -/
theorem digit_read (n : Nat) (small : n < 16) :
    ∃ b, utf8 [upperDigits.getD n '0'] = [b] ∧ hexValue b = some n := by
  have each : ∀ n, n < 16 → utf8 [upperDigits.getD n '0'] =
      [UInt8.ofNat (upperDigits.getD n '0').toNat] ∧
        hexValue (UInt8.ofNat (upperDigits.getD n '0').toNat) = some n := by decide
  exact ⟨_, each n small⟩

/-- One encoded byte is decoded by itself, whatever follows it. -/
theorem decodeBytes_encodeByte (keep : UInt8 → Bool) (plain : Plain keep) (b : UInt8)
    (rest : List UInt8) : decodeBytes (utf8 (encodeByte keep b) ++ rest) = b :: decodeBytes rest := by
  by_cases kept : keep b = true
  · obtain ⟨ascii, percent⟩ := plain b kept
    rw [encodeByte, if_pos kept, utf8_latin b ascii]
    exact decodeBytes_plain b rest percent
  · have bound := b.toNat_lt
    have high := highDigit b
    have low := lowDigit b
    obtain ⟨hi, writtenHigh, readHigh⟩ := digit_read (b >>> 4).toNat (by omega)
    obtain ⟨lo, writtenLow, readLow⟩ := digit_read (b &&& 15).toNat (by omega)
    have written : utf8 (encodeByte keep b) = [0x25] ++ ([hi] ++ [lo]) := by
      rw [encodeByte, if_neg kept, ← writtenHigh, ← writtenLow, ← utf8_append]
      exact utf8_append ['%'] _
    have value : UInt8.ofNat (16 * (b >>> 4).toNat + (b &&& 15).toNat) = b := by
      rw [high, low, Nat.div_add_mod, UInt8.ofNat_toNat]
    rw [written]
    change decodeBytes (0x25 :: hi :: lo :: rest) = _
    rw [decodeBytes, if_pos rfl, readHigh, readLow]
    simp only [value]

theorem decodeBytes_encodeBytes (keep : UInt8 → Bool) (plain : Plain keep) (bytes : List UInt8) :
    decodeBytes (utf8 (encodeBytes keep bytes)) = bytes := by
  induction bytes with
  | nil => rfl
  | cons b bytes ih =>
    have split : encodeBytes keep (b :: bytes) = encodeByte keep b ++ encodeBytes keep bytes :=
      List.flatMap_cons
    rw [split, utf8_append, decodeBytes_encodeByte keep plain, ih]

/-- The lossy decoder undoes every encoder. -/
def lossy : Decoder where
  decode := decodeLossy
  decode_encode keep plain text := by
    rw [decodeLossy, encode, decodeBytes_encodeBytes keep plain, fromUtf8Lossy_utf8]

/-! Form-urlencoded queries. -/

def formDecodePart (part : List Char) : List Char :=
  decodeLossy (part.map fun c => if c = '+' then ' ' else c)

/-- Empty parts are passed over; a part without a value has the empty one. -/
def formDecode (query : List Char) : List (List Char × List Char) :=
  ((query.splitOn '&').filter (· ≠ [])).map fun part =>
    match splitOnce '=' part with
    | some (name, value) => (formDecodePart name, formDecodePart value)
    | none => (formDecodePart part, [])

/-- Pairs as they are written into a query. -/
def formEncode (keep : UInt8 → Bool) (pairs : List (List Char × List Char)) : List Char :=
  ['&'].intercalate (pairs.map fun pair => encode keep pair.1 ++ '=' :: encode keep pair.2)

theorem formDecodePart_encode (keep : UInt8 → Bool) (plain : Plain keep) (text : List Char)
    (noPlus : '+' ∉ encode keep text) : formDecodePart (encode keep text) = text := by
  have same : (encode keep text).map (fun c => if c = '+' then ' ' else c) = encode keep text := by
    conv_rhs => rw [← List.map_id (encode keep text)]
    apply List.map_congr_left
    intro c member
    apply if_neg
    rintro rfl
    exact noPlus member
  rw [formDecodePart, same]
  exact lossy.decode_encode keep plain text

/-- A query is read back where the encoder escapes its separators. -/
theorem formDecode_formEncode (keep : UInt8 → Bool) (plain : Plain keep)
    (free : ∀ text, '&' ∉ encode keep text ∧ '=' ∉ encode keep text ∧ '+' ∉ encode keep text)
    (pairs : List (List Char × List Char)) : formDecode (formEncode keep pairs) = pairs := by
  have parts : ∀ part ∈ pairs.map (fun pair => encode keep pair.1 ++ '=' :: encode keep pair.2),
      '&' ∉ part ∧ part ≠ [] := by
    intro part member
    obtain ⟨pair, -, rfl⟩ := List.mem_map.mp member
    have name := (free pair.1).1
    have value := (free pair.2).1
    exact ⟨by simp [name, value], by simp⟩
  have pieces : ((formEncode keep pairs).splitOn '&').filter (· ≠ []) =
      pairs.map fun pair => encode keep pair.1 ++ '=' :: encode keep pair.2 := by
    cases pairs with
    | nil => rfl
    | cons pair pairs =>
      rw [formEncode, List.splitOn_intercalate '&' (fun part member => (parts part member).1) (by simp)]
      apply List.filter_eq_self.mpr
      intro part member
      exact decide_eq_true (parts part member).2
  rw [formDecode, pieces, List.map_map]
  conv_rhs => rw [← List.map_id pairs]
  apply List.map_congr_left
  intro pair _
  have cut := splitOnce_append '=' (encode keep pair.1) (encode keep pair.2) (free pair.1).2.1
  simp only [Function.comp_apply, cut, formDecodePart_encode keep plain _ (free _).2.2, id]

end OriginCache.Foundation.Percent
