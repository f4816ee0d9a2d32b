import Mathlib.Data.List.GetD
import OriginCache.Foundation.Percent

/-! Percent escapes in a text that is compared with its decoded form. An escape makes
the decoded form shorter, and no byte can take a separator in. -/

namespace OriginCache.Foundation.Escapes
open Percent

/-! What one byte in front of others does to their lossy reading. -/

theorem inner_of_range (b : UInt8) (low : 0x80 ≤ b) (high : b ≤ 0xBF) : ¬ b.IsUTF8FirstByte := by
  have each : ∀ n, n < 256 → 0x80 ≤ UInt8.ofNat n → UInt8.ofNat n ≤ 0xBF → ¬ (UInt8.ofNat n).IsUTF8FirstByte := by
    decide +kernel
  have this_ := each b.toNat b.toNat_lt
  rw [UInt8.ofNat_toNat] at this_
  exact this_ low high

/-- Nothing continues a byte that begins no character. -/
theorem continues_inner (b second : UInt8) (inner : ¬ b.IsUTF8FirstByte) : continues b second = false := by
  have leads : ∀ n, n < 256 → 0xE0 ≤ UInt8.ofNat n → UInt8.ofNat n ≤ 0xF4 → (UInt8.ofNat n).IsUTF8FirstByte := by
    decide +kernel
  have lead := leads b.toNat b.toNat_lt
  rw [UInt8.ofNat_toNat] at lead
  unfold continues
  split_ifs with one two three four
  · exact absurd (lead (by rw [one]; decide) (by rw [one]; decide)) inner
  · exact absurd (lead (by rw [two]; decide) (by rw [two]; decide)) inner
  · exact absurd (lead (by rw [three]; decide) (by rw [three]; decide)) inner
  · exact absurd (lead (by rw [four]; decide) (by rw [four]; decide)) inner
  · apply decide_eq_false
    intro range
    exact inner (lead range.1 (UInt8.le_of_lt range.2.1))

theorem fromUtf8Lossy_inner (b : UInt8) (rest : List UInt8) (inner : ¬ b.IsUTF8FirstByte) :
    fromUtf8Lossy (b :: rest) = '\uFFFD' :: fromUtf8Lossy rest := by
  have unread : (b :: rest).toByteArray.utf8DecodeChar? 0 = none := by
    apply Option.not_isSome_iff_eq_none.mp
    intro reads
    have first := ByteArray.isUTF8FirstByte_of_isSome_utf8DecodeChar? reads
    rw [List.getElem_toByteArray] at first
    exact inner first
  have length : brokenLength b rest = 1 := by
    rw [brokenLength, continues_inner b _ inner, if_pos rfl]
  rw [fromUtf8Lossy, unread, length]
  rfl

theorem fromUtf8Lossy_run (k : Nat) (bytes : List UInt8) (inner : ∀ b ∈ bytes.take k, ¬ b.IsUTF8FirstByte) :
    fromUtf8Lossy bytes = List.replicate (min k bytes.length) '\uFFFD' ++ fromUtf8Lossy (bytes.drop k) := by
  induction k generalizing bytes with
  | zero => rw [Nat.zero_min]; rfl
  | succ k ih =>
    cases bytes with
    | nil => rfl
    | cons b rest =>
      have later := ih rest fun c member => inner c (List.mem_cons_of_mem b member)
      rw [fromUtf8Lossy_inner b rest (inner b List.mem_cons_self), later, List.length_cons, Nat.succ_min_succ,
        List.replicate_succ, List.drop_succ_cons, List.cons_append]

/-- The bytes a character has behind its first. -/
theorem inner_of_decoded (b : UInt8) (rest : List UInt8) (c : Char)
    (reads : (b :: rest).toByteArray.utf8DecodeChar? 0 = some c) :
    ∀ x ∈ rest.take (c.utf8Size - 1), ¬ x.IsUTF8FirstByte := by
  have whole := String.toByteArray_utf8EncodeChar_of_utf8DecodeChar?_eq_some reads
  have bytes : String.utf8EncodeChar c = (b :: rest).take c.utf8Size := by
    have lists := congrArg (fun bytes => bytes.data.toList) whole
    simpa using lists
  have positive := c.utf8Size_pos
  intro x member
  obtain ⟨i, bound, rfl⟩ := List.mem_iff_getElem.mp member
  have inside : i + 1 < (String.utf8EncodeChar c).length := by
    rw [List.length_take] at bound
    rw [bytes, List.length_take, List.length_cons]
    omega
  have same : (rest.take (c.utf8Size - 1))[i] = (String.utf8EncodeChar c)[i + 1] := by
    simp only [bytes, List.getElem_take, List.getElem_cons_succ]
  rw [same, UInt8.isUTF8FirstByte_getElem_utf8EncodeChar]
  exact Nat.succ_ne_zero i

theorem continues_range (lead second : UInt8) (goes : continues lead second = true) : 0x80 ≤ second ∧ second ≤ 0xBF := by
  unfold continues at goes
  split_ifs at goes with one two three four
  · have range := of_decide_eq_true goes
    exact ⟨UInt8.le_trans (by decide) range.1, range.2⟩
  · have range := of_decide_eq_true goes
    exact ⟨range.1, UInt8.le_trans range.2 (by decide)⟩
  · have range := of_decide_eq_true goes
    exact ⟨UInt8.le_trans (by decide) range.1, range.2⟩
  · have range := of_decide_eq_true goes
    exact ⟨range.1, UInt8.le_trans range.2 (by decide)⟩
  · exact (of_decide_eq_true goes).2.2

/-- The bytes one replacement character takes in behind the first. -/
theorem inner_of_broken (b : UInt8) (rest : List UInt8) :
    ∀ x ∈ rest.take (brokenLength b rest - 1), ¬ x.IsUTF8FirstByte := by
  intro x member
  by_cases goes : continues b (rest.headD 0) = true
  · have first := continues_range b _ goes
    cases rest with
    | nil => exact absurd member (by simp)
    | cons second tail =>
      by_cases narrow : b < 0xF0
      · have length : brokenLength b (second :: tail) = 2 := by
          rw [brokenLength, goes, if_neg (by decide), if_pos narrow]
        rw [length] at member
        have same : x = second := by simpa using member
        rw [same]
        exact inner_of_range second first.1 first.2
      · cases tail with
        | nil =>
          have same : x = second := by simpa using List.mem_of_mem_take member
          rw [same]
          exact inner_of_range second first.1 first.2
        | cons third tail =>
          have length : brokenLength b (second :: third :: tail) =
              if 0x80 ≤ third ∧ third ≤ 0xBF then 3 else 2 := by
            rw [brokenLength, goes, if_neg (by decide), if_neg narrow]
            rfl
          rw [length] at member
          by_cases range : 0x80 ≤ third ∧ third ≤ 0xBF
          · rw [if_pos range] at member
            have either : x = second ∨ x = third := by simpa using member
            cases either with
            | inl same => exact same ▸ inner_of_range second first.1 first.2
            | inr same => exact same ▸ inner_of_range third range.1 range.2
          · rw [if_neg range] at member
            have same : x = second := by simpa using member
            rw [same]
            exact inner_of_range second first.1 first.2
  · have length : brokenLength b rest = 1 := by
      rw [brokenLength, if_pos (Bool.eq_false_iff.mpr goes)]
    rw [length] at member
    exact absurd member (by simp)

/-- One byte more is at most one character more. -/
theorem fromUtf8Lossy_cons (b : UInt8) (rest : List UInt8) :
    ∃ c k, fromUtf8Lossy (b :: rest) = c :: fromUtf8Lossy (rest.drop k) ∧
      fromUtf8Lossy rest = List.replicate (min k rest.length) '\uFFFD' ++ fromUtf8Lossy (rest.drop k) := by
  cases reads : (b :: rest).toByteArray.utf8DecodeChar? 0 with
  | some c =>
    refine ⟨c, c.utf8Size - 1, ?_, ?_⟩
    · rw [fromUtf8Lossy, reads]
    · exact fromUtf8Lossy_run _ rest (inner_of_decoded b rest c reads)
  | none =>
    refine ⟨'\uFFFD', brokenLength b rest - 1, ?_, ?_⟩
    · rw [fromUtf8Lossy, reads]
    · exact fromUtf8Lossy_run _ rest (inner_of_broken b rest)

/-! Reading a text's escapes, character by character. -/

/-- A character that begins with an ASCII byte is that byte. -/
theorem char_of_ascii (c : Char) (b : UInt8) (tail : List UInt8) (written : String.utf8EncodeChar c = b :: tail)
    (ascii : b < 0x80) : c = latin b := by
  have byte : String.utf8EncodeChar (latin b) = [b] := by
    have single := utf8_latin b ascii
    rwa [utf8_cons, show utf8 [] = [] from rfl, List.append_nil] at single
  have read := fromUtf8Lossy_char c []
  have read' := fromUtf8Lossy_char (latin b) tail
  rw [byte] at read'
  rw [List.append_nil, written] at read
  exact (List.cons.inj (read.symm.trans read')).1

theorem percent_free (c : Char) (other : c ≠ '%') (b : UInt8) (member : b ∈ String.utf8EncodeChar c) : b ≠ 0x25 := by
  intro percent
  obtain ⟨i, bound, at_⟩ := List.mem_iff_getElem.mp member
  have first := @UInt8.isUTF8FirstByte_getElem_utf8EncodeChar c i bound
  rw [at_, percent] at first
  have zero : i = 0 := first.mp (by decide)
  cases written : String.utf8EncodeChar c with
  | nil => exact String.utf8EncodeChar_ne_nil written
  | cons head tail =>
    have same : head = 0x25 := by
      rw [← percent, ← at_]
      subst zero
      simp [written]
    have named := char_of_ascii c head tail written (by rw [same]; decide)
    rw [same] at named
    exact other named

theorem decodeBytes_free (bytes rest : List UInt8) (free : ∀ b ∈ bytes, b ≠ 0x25) :
    decodeBytes (bytes ++ rest) = bytes ++ decodeBytes rest := by
  induction bytes with
  | nil => rfl
  | cons b bytes ih =>
    rw [List.cons_append, decodeBytes_plain b _ (free b List.mem_cons_self),
      ih fun c member => free c (List.mem_cons_of_mem b member), List.cons_append]

theorem head_of_ascii (text : List Char) (b : UInt8) (tail : List UInt8) (written : utf8 text = b :: tail)
    (ascii : b < 0x80) : ∃ rest, text = latin b :: rest ∧ utf8 rest = tail := by
  cases text with
  | nil => cases written
  | cons c rest =>
    rw [utf8_cons] at written
    cases bytes : String.utf8EncodeChar c with
    | nil => exact (String.utf8EncodeChar_ne_nil bytes).elim
    | cons head more =>
      rw [bytes, List.cons_append] at written
      have same := (List.cons.inj written).1
      have named := char_of_ascii c head more bytes (same ▸ ascii)
      rw [same] at named
      have single := utf8_latin b ascii
      rw [utf8_cons, show utf8 [] = [] from rfl, List.append_nil, ← named, bytes] at single
      rw [(List.cons.inj single).2] at written
      exact ⟨rest, congrArg (· :: rest) named, (List.cons.inj written).2⟩

theorem hex_ascii (b : UInt8) (digit : (hexValue b).isSome = true) : b < 0x80 := by
  have each : ∀ n, n < 256 → (hexValue (UInt8.ofNat n)).isSome = true → UInt8.ofNat n < 0x80 := by decide +kernel
  have here := each b.toNat b.toNat_lt
  rw [UInt8.ofNat_toNat] at here
  exact here digit

/-- Where two digits follow, the percent sign is an escape; elsewhere it stands for itself. -/
theorem decodeBytes_percent (bytes : List UInt8) :
    (∃ high low tail b, bytes = high :: low :: tail ∧ (hexValue high).isSome = true ∧ (hexValue low).isSome = true ∧
      decodeBytes (0x25 :: bytes) = b :: decodeBytes tail) ∨ decodeBytes (0x25 :: bytes) = 0x25 :: decodeBytes bytes := by
  cases bytes with
  | nil => exact .inr rfl
  | cons high bytes =>
    cases bytes with
    | nil => exact .inr rfl
    | cons low tail =>
      rw [decodeBytes, if_pos rfl]
      cases first : hexValue high with
      | none => exact .inr rfl
      | some front =>
        cases second : hexValue low with
        | none => exact .inr rfl
        | some back =>
          left
          exact ⟨high, low, tail, _, rfl, by rw [first]; rfl, by rw [second]; rfl, rfl⟩

/-- A text as its decoder goes through it. -/
inductive Reads : List Char → Prop
  | done : Reads []
  | plain (c : Char) (rest : List Char) (later : Reads rest)
      (read : decodeBytes (utf8 (c :: rest)) = String.utf8EncodeChar c ++ decodeBytes (utf8 rest)) : Reads (c :: rest)
  | escape (high low b : UInt8) (rest : List Char) (later : Reads rest)
      (digits : (hexValue high).isSome = true ∧ (hexValue low).isSome = true)
      (read : decodeBytes (utf8 ('%' :: latin high :: latin low :: rest)) = b :: decodeBytes (utf8 rest)) :
      Reads ('%' :: latin high :: latin low :: rest)

theorem reads_short (n : Nat) (text : List Char) (short : text.length ≤ n) : Reads text := by
  induction n generalizing text with
  | zero =>
    have empty := List.length_eq_zero_iff.mp (Nat.le_zero.mp short)
    exact empty ▸ Reads.done
  | succ n ih =>
    cases text with
    | nil => exact Reads.done
    | cons c rest =>
      rw [List.length_cons] at short
      by_cases percent : c = '%'
      · have bytes : utf8 (c :: rest) = 0x25 :: utf8 rest := by
          rw [percent, utf8_cons]
          rfl
        cases decodeBytes_percent (utf8 rest) with
        | inl escaped =>
          obtain ⟨high, low, tail, b, written, first, second, read⟩ := escaped
          obtain ⟨more, named, written'⟩ := head_of_ascii rest high _ written (hex_ascii high first)
          obtain ⟨last, named', same⟩ := head_of_ascii more low tail written' (hex_ascii low second)
          rw [← same, ← bytes] at read
          subst named' named percent
          rw [List.length_cons, List.length_cons] at short
          exact Reads.escape high low b last (ih last (by omega)) ⟨first, second⟩ read
        | inr itself =>
          apply Reads.plain c rest (ih rest (by omega))
          rw [bytes, itself, percent]
          rfl
      · apply Reads.plain c rest (ih rest (by omega))
        rw [utf8_cons]
        exact decodeBytes_free _ _ (percent_free c percent)

theorem reads (text : List Char) : Reads text := reads_short text.length text (Nat.le_refl _)

/-! A separator, and what a decoded text shows before it. -/

section Separator
variable (sep : Char)

/-- A character that no escape is written with and no broken byte is replaced by. -/
def Outside : Prop := sep ≠ '%' ∧ sep ≠ '\uFFFD' ∧ ∀ b, (hexValue b).isSome = true → latin b ≠ sep

omit sep in
theorem outside_slash : Outside '/' := by
  have each : ∀ n, n < 256 → (hexValue (UInt8.ofNat n)).isSome = true → latin (UInt8.ofNat n) ≠ '/' := by decide +kernel
  refine ⟨by decide, by decide, fun b digit => ?_⟩
  have here := each b.toNat b.toNat_lt
  rw [UInt8.ofNat_toNat] at here
  exact here digit

/-- How far the first separator is. -/
def nameLength (text : List Char) : Nat := (text.takeWhile (· ≠ sep)).length

theorem nameLength_cons (c : Char) (text : List Char) (other : c ≠ sep) :
    nameLength sep (c :: text) = nameLength sep text + 1 := by
  rw [nameLength, List.takeWhile_cons_of_pos (by exact decide_eq_true other), List.length_cons, nameLength]

theorem nameLength_escape (outside : Outside sep) (high low : UInt8) (text : List Char)
    (digits : (hexValue high).isSome = true ∧ (hexValue low).isSome = true) :
    nameLength sep ('%' :: latin high :: latin low :: text) = nameLength sep text + 3 := by
  rw [nameLength_cons sep _ _ outside.1.symm, nameLength_cons sep _ _ (outside.2.2 high digits.1),
    nameLength_cons sep _ _ (outside.2.2 low digits.2)]

/-- A name of at most `n` characters: a separator follows, or the end of the text. -/
def EndsBy (n : Nat) (text : List Char) : Prop := ∃ i, i ≤ n ∧ text.getD i sep = sep

theorem endsBy_cons (n : Nat) (b : UInt8) (bytes : List UInt8) (broken : sep ≠ '\uFFFD')
    (ends : EndsBy sep n (fromUtf8Lossy bytes)) : EndsBy sep (n + 1) (fromUtf8Lossy (b :: bytes)) := by
  obtain ⟨c, k, front, back⟩ := fromUtf8Lossy_cons b bytes
  obtain ⟨i, bound, at_⟩ := ends
  rw [back] at at_
  by_cases inside : i < min k bytes.length
  · rw [List.getD_append _ _ _ _ (by rw [List.length_replicate]; exact inside), List.getD_replicate _ inside] at at_
    exact absurd at_.symm broken
  · rw [List.getD_append_right _ _ _ _ (by rw [List.length_replicate]; omega), List.length_replicate] at at_
    refine ⟨i - min k bytes.length + 1, by omega, ?_⟩
    rw [front, List.getD_cons_succ]
    exact at_

/-- A text with a longer name is no beginning. -/
theorem not_prefix_of_endsBy (n : Nat) (text longer : List Char) (short : n < nameLength sep text)
    (ends : EndsBy sep n longer) : ¬ text <+: longer := by
  rintro ⟨more, rfl⟩
  obtain ⟨i, bound, at_⟩ := ends
  have inside : i < (text.takeWhile (· ≠ sep)).length := Nat.lt_of_le_of_lt bound short
  rw [← List.takeWhile_append_dropWhile (p := (· ≠ sep)) (l := text), List.append_assoc,
    List.getD_append _ _ _ _ inside, List.getD_eq_getElem _ _ inside] at at_
  have other := List.all_eq_true.mp List.all_takeWhile _ (List.getElem_mem inside)
  exact of_decide_eq_true other at_

variable (rest : List UInt8) (closed : rest = [] ∨ ∃ more, rest = String.utf8EncodeChar sep ++ more)
include closed

theorem endsBy_rest : EndsBy sep 0 (fromUtf8Lossy rest) := by
  refine ⟨0, Nat.le_refl _, ?_⟩
  rcases closed with rfl | ⟨more, rfl⟩
  · rw [fromUtf8Lossy]
    rfl
  · rw [fromUtf8Lossy_char]
    rfl

/-- Decoding a text lengthens none of its names. -/
theorem endsBy_decoded (outside : Outside sep) (text : List Char) :
    EndsBy sep (nameLength sep text) (fromUtf8Lossy (decodeBytes (utf8 text) ++ rest)) := by
  induction reads text with
  | done => exact endsBy_rest sep rest closed
  | plain c text later read ih =>
    rw [read, List.append_assoc, fromUtf8Lossy_char]
    by_cases same : c = sep
    · exact ⟨0, Nat.zero_le _, by rw [same]; rfl⟩
    · obtain ⟨i, bound, at_⟩ := ih
      rw [nameLength_cons sep c text same]
      exact ⟨i + 1, Nat.succ_le_succ bound, at_⟩
  | escape high low b text later digits read ih =>
    have longer := endsBy_cons sep _ b _ outside.2.1 ih
    obtain ⟨i, bound, at_⟩ := longer
    rw [read, nameLength_escape sep outside high low text digits]
    exact ⟨i, Nat.le_succ_of_le (Nat.le_succ_of_le bound), at_⟩

/-- A text that an escape is read in does not begin its own decoded form. -/
theorem escape_moves (outside : Outside sep) (text : List Char) (escaped : decodeBytes (utf8 text) ≠ utf8 text) :
    ¬ text <+: fromUtf8Lossy (decodeBytes (utf8 text) ++ rest) := by
  induction reads text with
  | done => exact absurd rfl escaped
  | plain c text later read ih =>
    rw [read, List.append_assoc, fromUtf8Lossy_char]
    intro begins
    apply ih _ (List.cons_prefix_cons.mp begins).2
    intro same
    apply escaped
    rw [read, same, utf8_cons]
  | escape high low b text later digits read ih =>
    have ends := endsBy_cons sep _ b _ outside.2.1 (endsBy_decoded sep rest closed outside text)
    rw [read]
    apply not_prefix_of_endsBy sep _ _ _ _ ends
    rw [nameLength_escape sep outside high low text digits]
    exact Nat.lt_succ_of_lt (Nat.lt_succ_self _)

end Separator

end OriginCache.Foundation.Escapes
