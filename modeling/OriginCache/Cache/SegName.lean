import Mathlib.Algebra.Ring.Nat
import Mathlib.Data.List.Infix
import Mathlib.Tactic.Common
import OriginCache.Foundation.Splits

/-! The file names of the cache directory's flat artifacts. Text is a list of
characters; the decoder alone works on the UTF-8 bytes of a name, as the source
does. Offsets are `u64` values. -/

namespace OriginCache.Cache.SegName
open Foundation.Splits

abbrev Text := List Char

instance lawfulText : LawfulBEq Text := inferInstance

def bytesOf (text : Text) : List UInt8 := text.flatMap String.utf8EncodeChar

def replaceChar (old : Char) (new : Text) (text : Text) : Text :=
  text.flatMap fun c => if c = old then new else [c]

/-- `%` first, then `/`. -/
def escapeKey (key : Text) : Text :=
  replaceChar '/' ['%', '2', 'F'] (replaceChar '%' ['%', '2', '5'] key)

def hexVal (b : UInt8) : Option Nat :=
  if 0x30 ≤ b ∧ b ≤ 0x39 then some (b.toNat - 0x30)
  else if 0x61 ≤ b ∧ b ≤ 0x66 then some (b.toNat - 0x61 + 10)
  else if 0x41 ≤ b ∧ b ≤ 0x46 then some (b.toNat - 0x41 + 10)
  else none

/-- One byte as a character, the way `u8 as char` reads it. -/
def latin (b : UInt8) : Char := Char.ofNat b.toNat

@[grind =] def unescapeBytes : List UInt8 → Option Text
  | [] => some []
  | b :: rest =>
      if b = 0x25 then
        match rest with
        | hi :: lo :: tail => do
            let high ← hexVal hi
            let low ← hexVal lo
            let out ← unescapeBytes tail
            some (Char.ofNat (16 * high + low) :: out)
        | _ => none
      else if b = 0x2F then none
      else (unescapeBytes rest).map (latin b :: ·)

def unescapeKey (esc : Text) : Option Text := unescapeBytes (bytesOf esc)

def segPrefix : Text := ['.', 's', 'e', 'g', '.']
def segpartPrefix : Text := ['.', 's', 'e', 'g', 'p', 'a', 'r', 't', '.']
def segmetaPrefix : Text := ['.', 's', 'e', 'g', 'm', 'e', 't', 'a', '.']

/-- The `<start>-<end>` suffix shared by the sealed and the in-flight names. -/
def rangeText (start stop : Nat) : Text := numeral start ++ '-' :: numeral stop

def segPath (key : Text) (start stop : Nat) : Text :=
  segPrefix ++ (escapeKey key ++ '.' :: rangeText start stop)

def segpartPath (key : Text) (start stop : Nat) : Text :=
  segpartPrefix ++ (escapeKey key ++ '.' :: rangeText start stop)

def segmetaPath (key : Text) : Text := segmetaPrefix ++ escapeKey key

/-- `str::parse::<u64>`: digits after one optional plus sign, below `2^64`. -/
def parseU64 (text : Text) : Option Nat :=
  match text with
  | '+' :: digits => readNumeral (2 ^ 64) digits
  | digits => readNumeral (2 ^ 64) digits

def parseSegName (name : Text) : Option (Text × Nat × Nat) := do
  let rest ← stripPrefix segPrefix name
  let (esc, range) ← rsplitOnce '.' rest
  let (s, e) ← splitOnce '-' range
  let key ← unescapeKey esc
  let start ← parseU64 s
  let stop ← parseU64 e
  some (key, start, stop)

/-! Escaping is a prefix code. -/

def escapeChar (c : Char) : Text :=
  if c = '%' then ['%', '2', '5'] else if c = '/' then ['%', '2', 'F'] else [c]

theorem escapeKey_eq (key : Text) : escapeKey key = key.flatMap escapeChar := by
  unfold escapeKey replaceChar
  rw [List.flatMap_assoc]
  congr 1
  funext c
  unfold escapeChar
  by_cases percent : c = '%'
  · subst percent; decide
  · by_cases slash : c = '/' <;> simp [percent, slash]

theorem escapeKey_cons (c : Char) (key : Text) :
    escapeKey (c :: key) = escapeChar c ++ escapeKey key := by
  simp only [escapeKey_eq, List.flatMap_cons]

theorem escapeChar_ne_nil (c : Char) : escapeChar c ≠ [] := by
  unfold escapeChar
  split_ifs <;> simp

theorem escapeChar_append_inj (c d : Char) (u v : Text)
    (same : escapeChar c ++ u = escapeChar d ++ v) : c = d ∧ u = v := by
  unfold escapeChar at same
  split_ifs at same with h1 h2 h3 h4 h5 h6 <;>
    simp_all only [List.cons_append, List.nil_append, List.cons.injEq, true_and, and_self,
      Char.reduceEq, false_and, and_false]
  all_goals simp_all

/-- An escaped key that begins an escaped key is the escape of a beginning. -/
theorem escapeKey_append (first second : Text) (u : Text)
    (same : escapeKey first ++ u = escapeKey second) :
    ∃ rest, second = first ++ rest ∧ escapeKey rest = u := by
  induction first generalizing second with
  | nil => exact ⟨second, rfl, by simpa [escapeKey_eq] using same.symm⟩
  | cons c first ih =>
    rw [escapeKey_cons, List.append_assoc] at same
    cases second with
    | nil =>
      have none : escapeChar c = [] := by
        have empty : escapeKey [] = [] := rfl
        rw [empty] at same
        exact (List.append_eq_nil_iff.mp same).1
      exact (escapeChar_ne_nil c none).elim
    | cons d second =>
      rw [escapeKey_cons] at same
      obtain ⟨rfl, later⟩ := escapeChar_append_inj c d _ _ same
      obtain ⟨rest, whole, escaped⟩ := ih second later
      exact ⟨rest, by rw [whole]; rfl, escaped⟩

theorem escapeKey_injective : Function.Injective escapeKey := by
  intro first second same
  obtain ⟨rest, whole, empty⟩ := escapeKey_append first second [] (by simpa using same)
  cases rest with
  | nil => simpa using whole.symm
  | cons c rest =>
    rw [escapeKey_cons] at empty
    exact (escapeChar_ne_nil c (List.append_eq_nil_iff.mp empty).1).elim

/-- A key that extends another one by a dot, so that the file names of the first
begin like those of the second. -/
def Extends (key longer : Text) : Prop := ∃ rest, longer = key ++ '.' :: rest

theorem escape_extends_iff (key longer : Text) :
    (∃ rest, escapeKey longer = escapeKey key ++ '.' :: rest) ↔ Extends key longer := by
  constructor
  · rintro ⟨rest, same⟩
    obtain ⟨tail, whole, escaped⟩ := escapeKey_append key longer ('.' :: rest) same.symm
    cases tail with
    | nil => simp [escapeKey_eq] at escaped
    | cons c tail =>
      rw [escapeKey_cons] at escaped
      have dot : c = '.' := by
        have first := escapeChar_append_inj c '.' (escapeKey tail) rest (by
          simpa [escapeChar] using escaped)
        exact first.1
      exact ⟨tail, by rw [whole, dot]⟩
  · rintro ⟨rest, rfl⟩
    refine ⟨escapeKey rest, ?_⟩
    simp [escapeKey_eq, escapeChar]

/-! The decoder reads bytes as characters. -/

/-- Every character is a single UTF-8 byte. -/
def Ascii (key : Text) : Prop := ∀ c ∈ key, c.toNat < 128

theorem encodeChar_ascii (c : Char) (ascii : c.toNat < 128) :
    String.utf8EncodeChar c = [UInt8.ofNat c.toNat] := by
  have small : c.val.toNat ≤ 0x7f := Nat.le_of_lt_succ ascii
  unfold String.utf8EncodeChar
  rw [if_pos small]
  rfl

theorem encodeChar_wide (c : Char) (wide : ¬ c.toNat < 128) :
    2 ≤ (String.utf8EncodeChar c).length ∧ ∀ b ∈ String.utf8EncodeChar c, 0x80 ≤ b := by
  have large : ¬ c.val.toNat ≤ 0x7f := fun small => wide (Nat.lt_succ_of_le small)
  unfold String.utf8EncodeChar
  simp only [large, if_false]
  generalize c.val.toNat = v
  split_ifs
  all_goals
    refine ⟨by simp, ?_⟩
    intro b member
    simp only [List.mem_cons, List.not_mem_nil, or_false] at member
    rcases member with rfl | rfl | rfl | rfl <;> rw [UInt8.le_iff_toNat_le] <;> simp <;> omega

/-- The bytes of a character other than the two escaped ones decode by themselves. -/
theorem plain_bytes (c : Char) (percent : c ≠ '%') (slash : c ≠ '/') :
    ∀ b ∈ String.utf8EncodeChar c, b ≠ 0x25 ∧ b ≠ 0x2F := by
  intro b member
  by_cases ascii : c.toNat < 128
  · rw [encodeChar_ascii c ascii, List.mem_singleton] at member
    have value : b.toNat = c.toNat := by
      rw [member, UInt8.toNat_ofNat']
      omega
    constructor
    · rintro rfl
      exact percent (Char.toNat_inj.mp value.symm)
    · rintro rfl
      exact slash (Char.toNat_inj.mp value.symm)
  · have high := (encodeChar_wide c ascii).2 b member
    constructor <;> rintro rfl <;> exact absurd high (by decide)

theorem unescapeBytes_cons (b : UInt8) (rest : List UInt8) (percent : b ≠ 0x25) (slash : b ≠ 0x2F) :
    unescapeBytes (b :: rest) = (unescapeBytes rest).map (latin b :: ·) := by
  rcases rest with _ | ⟨hi, _ | ⟨lo, tail⟩⟩ <;> simp [unescapeBytes, percent, slash]

theorem unescapeBytes_plain (plain rest : List UInt8)
    (free : ∀ b ∈ plain, b ≠ 0x25 ∧ b ≠ 0x2F) :
    unescapeBytes (plain ++ rest) = (unescapeBytes rest).map (plain.map latin ++ ·) := by
  induction plain with
  | nil => simp
  | cons b plain ih =>
    have head := free b List.mem_cons_self
    rw [List.cons_append, unescapeBytes_cons b _ head.1 head.2,
      ih fun c member => free c (List.mem_cons_of_mem b member)]
    simp [Option.map_map, Function.comp_def]

theorem unescapeBytes_escapeChar (c : Char) (rest : List UInt8) :
    unescapeBytes (bytesOf (escapeChar c) ++ rest) =
      (unescapeBytes rest).map ((String.utf8EncodeChar c).map latin ++ ·) := by
  unfold escapeChar
  split_ifs with percent slash
  · subst percent
    have bytes : bytesOf ['%', '2', '5'] = [0x25, 0x32, 0x35] := by decide
    have one : (String.utf8EncodeChar '%').map latin = ['%'] := by decide
    rw [bytes, one]
    change (do let out ← unescapeBytes rest; some ('%' :: out)) = _
    cases unescapeBytes rest <;> rfl
  · subst slash
    have bytes : bytesOf ['%', '2', 'F'] = [0x25, 0x32, 0x46] := by decide
    have one : (String.utf8EncodeChar '/').map latin = ['/'] := by decide
    rw [bytes, one]
    change (do let out ← unescapeBytes rest; some ('/' :: out)) = _
    cases unescapeBytes rest <;> rfl
  · have single : bytesOf [c] = String.utf8EncodeChar c := by simp [bytesOf]
    rw [single]
    exact unescapeBytes_plain _ _ (plain_bytes c percent slash)

/-- What the decoder makes of an escaped key: one character for each byte. -/
theorem unescapeKey_escapeKey (key : Text) :
    unescapeKey (escapeKey key) = some ((bytesOf key).map latin) := by
  unfold unescapeKey
  induction key with
  | nil => rfl
  | cons c key ih =>
    have split : bytesOf (escapeKey (c :: key)) = bytesOf (escapeChar c) ++ bytesOf (escapeKey key) := by
      rw [escapeKey_cons, bytesOf, List.flatMap_append]; rfl
    rw [split, unescapeBytes_escapeChar, ih]
    simp [bytesOf]

theorem bytesOf_cons (c : Char) (text : Text) :
    bytesOf (c :: text) = String.utf8EncodeChar c ++ bytesOf text := List.flatMap_cons

theorem length_le_bytesOf (text : Text) : text.length ≤ (bytesOf text).length := by
  induction text with
  | nil => exact Nat.le_refl _
  | cons c text ih =>
    have some := List.length_pos_iff.mpr (@String.utf8EncodeChar_ne_nil c)
    rw [bytesOf_cons, List.length_append, List.length_cons]
    omega

theorem ascii_of_bytesOf_length (text : Text) (short : (bytesOf text).length ≤ text.length) :
    Ascii text := by
  induction text with
  | nil => intro c member; cases member
  | cons c text ih =>
    have least := length_le_bytesOf text
    rw [bytesOf_cons, List.length_append, List.length_cons] at short
    have head : c.toNat < 128 := by
      by_contra wide
      have two := (encodeChar_wide c wide).1
      omega
    have one : (String.utf8EncodeChar c).length = 1 := by rw [encodeChar_ascii c head]; rfl
    intro d member
    rcases List.mem_cons.mp member with rfl | later
    · exact head
    · exact ih (by omega) d later

/-- The decoder gives the key back exactly when every character is one byte. -/
theorem latin_bytesOf_iff (key : Text) : (bytesOf key).map latin = key ↔ Ascii key := by
  constructor
  · intro same
    have lengths := congrArg List.length same
    rw [List.length_map] at lengths
    exact ascii_of_bytesOf_length key (Nat.le_of_eq lengths)
  · intro ascii
    induction key with
    | nil => rfl
    | cons c key ih =>
      have head : c.toNat < 128 := ascii c List.mem_cons_self
      have tail := ih fun d member => ascii d (List.mem_cons_of_mem c member)
      have back : latin (UInt8.ofNat c.toNat) = c := by
        unfold latin
        rw [UInt8.toNat_ofNat', Nat.mod_eq_of_lt (by omega), Char.ofNat_toNat]
      rw [bytesOf_cons, encodeChar_ascii c head, List.singleton_append, List.map_cons, back, tail]

theorem parseU64_numeral (n : Nat) (bound : n < 2 ^ 64) : parseU64 (numeral n) = some n := by
  unfold parseU64
  split
  · rename_i digits plus
    have member : '+' ∈ numeral n := by rw [plus]; exact List.mem_cons_self
    exact (not_mem_numeral n '+' (by decide) member).elim
  · exact readNumeral_numeral (2 ^ 64) n bound

theorem dot_not_mem_rangeText (start stop : Nat) : '.' ∉ rangeText start stop := by
  intro member
  rcases List.mem_append.mp member with first | later
  · exact not_mem_numeral start '.' (by decide) first
  · rcases List.mem_cons.mp later with same | last
    · exact absurd same (by decide)
    · exact not_mem_numeral stop '.' (by decide) last

/-- What a segment's own name is read back as. -/
theorem parseSegName_segPath (key : Text) (start stop : Nat) (first : start < 2 ^ 64)
    (last : stop < 2 ^ 64) :
    parseSegName (segPath key start stop) = some ((bytesOf key).map latin, start, stop) := by
  have range : splitOnce '-' (rangeText start stop) = some (numeral start, numeral stop) :=
    splitOnce_append '-' _ _ (not_mem_numeral start '-' (by decide))
  have parts : rsplitOnce '.' (escapeKey key ++ '.' :: rangeText start stop) =
      some (escapeKey key, rangeText start stop) :=
    rsplitOnce_append '.' _ _ (dot_not_mem_rangeText start stop)
  simp only [parseSegName, segPath, stripPrefix_append, parts, range, unescapeKey_escapeKey,
    parseU64_numeral start first, parseU64_numeral stop last, Option.bind_eq_bind, Option.bind_some]

/-- The key is the part before the last dot, so the names of different keys or
ranges are different. -/
theorem spanText_injective (key other : Text) (start stop first last : Nat)
    (same : escapeKey key ++ '.' :: rangeText start stop = escapeKey other ++ '.' :: rangeText first last) :
    key = other ∧ start = first ∧ stop = last := by
  have parts := congrArg (rsplitOnce '.') same
  rw [rsplitOnce_append '.' _ _ (dot_not_mem_rangeText start stop),
    rsplitOnce_append '.' _ _ (dot_not_mem_rangeText first last)] at parts
  simp only [Option.some.injEq, Prod.mk.injEq] at parts
  have ranges := congrArg (splitOnce '-') parts.2
  rw [rangeText, rangeText, splitOnce_append '-' _ _ (not_mem_numeral start '-' (by decide)),
    splitOnce_append '-' _ _ (not_mem_numeral first '-' (by decide))] at ranges
  simp only [Option.some.injEq, Prod.mk.injEq] at ranges
  exact ⟨escapeKey_injective parts.1, numeral_injective ranges.1, numeral_injective ranges.2⟩

theorem segPath_injective (key other : Text) (start stop first last : Nat)
    (same : segPath key start stop = segPath other first last) :
    key = other ∧ start = first ∧ stop = last :=
  spanText_injective key other start stop first last (List.append_cancel_left same)

theorem segpartPath_injective (key other : Text) (start stop first last : Nat)
    (same : segpartPath key start stop = segpartPath other first last) :
    key = other ∧ start = first ∧ stop = last :=
  spanText_injective key other start stop first last (List.append_cancel_left same)

theorem segpartPath_ne_segPath (key other : Text) (start stop first last : Nat) :
    segpartPath key start stop ≠ segPath other first last := by
  intro same
  have fifth := congrArg (fun name => name[4]?) same
  simp [segPath, segpartPath, segPrefix, segpartPrefix] at fifth

/-- The prefix that is asked for as "the files of `key`" also begins the names of
the keys that continue `key` after a dot. -/
theorem segPath_prefix_iff (key other : Text) (start stop : Nat) :
    segPrefix ++ (escapeKey key ++ ['.']) <+: segPath other start stop ↔
      key = other ∨ Extends key other := by
  rw [segPath, List.prefix_append_right_inj,
    marked_prefix_iff '.' _ _ _ (dot_not_mem_rangeText start stop), escape_extends_iff]
  constructor
  · rintro (same | longer)
    · exact Or.inl (escapeKey_injective same)
    · exact Or.inr longer
  · rintro (rfl | longer)
    · exact Or.inl rfl
    · exact Or.inr longer

end OriginCache.Cache.SegName
