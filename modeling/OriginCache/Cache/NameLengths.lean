import OriginCache.Cache.Paths

/-! How long the names of a key's files are. Storability looks at the escaped key alone,
and the layout adds a prefix and up to two decimal positions to it. -/

namespace OriginCache.Cache.NameLengths
open Foundation.Splits SegName Key Paths

def size (text : Text) : Nat := (bytesOf text).length

theorem size_append (first second : Text) : size (first ++ second) = size first + size second := by
  rw [size, bytesOf_append, List.length_append]
  rfl

theorem size_cons (c : Char) (text : Text) : size (c :: text) = size [c] + size text :=
  size_append [c] text

theorem size_ascii (text : Text) (ascii : Ascii text) : size text = text.length := by
  have same := congrArg List.length ((latin_bytesOf_iff text).mpr ascii)
  rwa [List.length_map] at same

/-! Positions. -/

theorem size_numeral (n : Nat) : size (numeral n) = (numeral n).length := by
  apply size_ascii
  intro c member
  have digit := numeral_isDigit n c member
  simp only [Char.isDigit, Bool.and_eq_true, decide_eq_true_eq] at digit
  have below : c.toNat ≤ 57 := digit.2
  omega

/-- Twenty digits hold every `u64`. -/
theorem size_numeral_le (n : Nat) (bound : n < 2 ^ 64) : size (numeral n) ≤ 20 := by
  rw [size_numeral]
  apply (Nat.length_toDigits_le_iff (by decide) (by decide)).mpr
  calc
    n < 2 ^ 64 := bound
    _ < 10 ^ 20 := by decide

def lastPosition : Nat := 2 ^ 64 - 1

theorem size_lastPosition : size (numeral lastPosition) = 20 := by
  rw [size_numeral]
  rfl

theorem size_rangeText (start stop : Nat) :
    size (rangeText start stop) = size (numeral start) + 1 + size (numeral stop) := by
  have dash : size ['-'] = 1 := by decide
  rw [rangeText, size_append, size_cons, dash]
  omega

/-! The names that carry the escaped key. -/

theorem size_segPath (key : Text) (start stop : Nat) :
    size (segPath key start stop) = partSize key + size (numeral start) + size (numeral stop) + 7 := by
  have opening : size segPrefix = 5 := by decide
  have dot : size ['.'] = 1 := by decide
  rw [segPath, size_append, size_append, size_cons, size_rangeText, opening, dot]
  change 5 + (partSize key + _) = _
  omega

theorem size_segpartPath (key : Text) (start stop : Nat) :
    size (segpartPath key start stop) = partSize key + size (numeral start) + size (numeral stop) + 11 := by
  have opening : size segpartPrefix = 9 := by decide
  have dot : size ['.'] = 1 := by decide
  rw [segpartPath, size_append, size_append, size_cons, size_rangeText, opening, dot]
  change 9 + (partSize key + _) = _
  omega

theorem size_segmetaPath (key : Text) : size (segmetaPath key) = partSize key + 9 := by
  have opening : size segmetaPrefix = 9 := by decide
  rw [segmetaPath, size_append, opening]
  exact Nat.add_comm _ _

/-! The names that carry the key itself. -/

theorem partSize_cons (c : Char) (key : Text) : partSize (c :: key) = partSize [c] + partSize key :=
  partSize_append [c] key

/-- Escaping a character shortens nothing. -/
theorem size_le_partSize (key : Text) : size key ≤ partSize key := by
  induction key with
  | nil => exact Nat.le_refl _
  | cons c key ih =>
    have one : size [c] ≤ partSize [c] := by
      by_cases percent : c = '%'
      · subst percent
        decide
      · by_cases slash : c = '/'
        · subst slash
          decide
        · have same : escapeKey [c] = [c] := by
            rw [escapeKey_eq, List.flatMap_singleton, escapeChar, if_neg percent, if_neg slash]
          rw [partSize, same]
          exact Nat.le_refl _
    rw [size_cons, partSize_cons]
    omega

theorem size_flattened (key : Text) : size (replaceChar '/' ['_'] key) ≤ size key := by
  induction key with
  | nil => exact Nat.le_refl _
  | cons c key ih =>
    have one : size (replaceChar '/' ['_'] [c]) ≤ size [c] := by
      by_cases slash : c = '/'
      · subst slash
        decide
      · rw [replaceChar, List.flatMap_singleton, if_neg slash]
    have split : replaceChar '/' ['_'] (c :: key) =
        replaceChar '/' ['_'] [c] ++ replaceChar '/' ['_'] key := by
      simp only [replaceChar, List.flatMap_cons, List.flatMap_nil, List.append_nil]
    rw [split, size_append, size_cons]
    omega

theorem size_hexWord (rand : BitVec 32) : size (hexWord rand) = 8 := by
  have each : ∀ m, m < 16 → (Nat.digitChar m).toNat < 128 := by decide
  rw [size_ascii, hexWord, List.length_map, List.length_range]
  intro c member
  obtain ⟨i, -, rfl⟩ := List.mem_map.mp member
  exact each _ (Nat.mod_lt _ (by decide))

theorem size_tmpName (key : Text) (rand : BitVec 32) : size (tmpName key rand) ≤ partSize key + 14 := by
  have opening : size tmpPrefix = 5 := by decide
  have dot : size ['.'] = 1 := by decide
  have flat := size_flattened key
  have escaped := size_le_partSize key
  rw [tmpName, size_append, size_append, size_cons, size_hexWord, opening, dot]
  omega

theorem weight_mem (part : Text) (parts : List Text) (member : part ∈ parts) :
    partSize part + 3 ≤ weight parts := by
  induction parts with
  | nil => exact absurd member List.not_mem_nil
  | cons first parts ih =>
    change _ ≤ 3 + partSize first + weight parts
    rcases List.mem_cons.mp member with rfl | later
    · omega
    · have := ih later
      omega

theorem size_component (key part : Text) (member : part ∈ key.splitOn '/') : size part ≤ partSize key := by
  have within := weight_mem part _ member
  have escaped := size_le_partSize part
  rw [weight_split] at within
  omega

/-! Which keys have room for all of them. -/

/-- The positions in a name are those of a span of `u64`. -/
def Spanned : Artifact → Prop
  | .segment _ start stop | .part _ start stop => start ≤ stop ∧ stop < 2 ^ 64
  | _ => True

/-- Every component of every name the layout builds for the key fits in a directory entry. -/
def Nameable (key : Text) : Prop :=
  ∀ artifact : Artifact, artifact.key? = some key → Spanned artifact →
    ∀ part ∈ artifact.name.splitOn '/', (bytesOf part).length ≤ nameMaxBytes

/-- The prefix of a part, its two dots and dash, and two positions of twenty digits. -/
def longestFrame : Nat := 51

theorem segPath_flat (key : Text) (start stop : Nat) : '/' ∉ segPath key start stop := by
  have opening : '/' ∉ segPrefix := by decide
  simp [segPath, opening, escapeKey_flat key, rangeText_flat start stop]

theorem segpartPath_flat (key : Text) (start stop : Nat) : '/' ∉ segpartPath key start stop := by
  have opening : '/' ∉ segpartPrefix := by decide
  simp [segpartPath, opening, escapeKey_flat key, rangeText_flat start stop]

theorem segmetaPath_flat (key : Text) : '/' ∉ segmetaPath key := by
  have opening : '/' ∉ segmetaPrefix := by decide
  simp [segmetaPath, opening, escapeKey_flat key]

theorem flat_component (name part : Text) (flat : '/' ∉ name) (member : part ∈ name.splitOn '/') : part = name := by
  rw [List.splitOn_eq_singleton flat] at member
  exact List.mem_singleton.mp member

theorem nameable_of_short (key : Text) (short : partSize key + longestFrame ≤ nameMaxBytes) : Nameable key := by
  intro artifact owner spanned part member
  have frame : longestFrame = 51 := rfl
  change size part ≤ nameMaxBytes
  cases artifact with
  | object name =>
    cases owner
    have inside := size_component key part member
    omega
  | temp name rand =>
    cases owner
    rw [flat_component _ part (tmpName_flat key rand) member]
    have long := size_tmpName key rand
    omega
  | segment name start stop =>
    cases owner
    rw [flat_component _ part (segPath_flat key start stop) member, size_segPath]
    have first := size_numeral_le start (Nat.lt_of_le_of_lt spanned.1 spanned.2)
    have second := size_numeral_le stop spanned.2
    omega
  | part name start stop =>
    cases owner
    rw [flat_component _ part (segpartPath_flat key start stop) member, size_segpartPath]
    have first := size_numeral_le start (Nat.lt_of_le_of_lt spanned.1 spanned.2)
    have second := size_numeral_le stop spanned.2
    omega
  | marker name =>
    cases owner
    rw [flat_component _ part (segmetaPath_flat key) member, size_segmetaPath]
    omega
  | metadata suffix => cases owner

/-- A key, resolvable or not, has room for every name exactly when its escaped form
leaves 51 bytes for the frame of a part in flight. -/
theorem nameable_iff (key : Text) :
    Nameable key ↔ (bytesOf (escapeKey key)).length + longestFrame ≤ nameMaxBytes := by
  constructor
  · intro nameable
    -- The part of the last byte of the longest object there can be.
    have last := nameable (.part key lastPosition lastPosition) rfl ⟨Nat.le_refl _, by decide⟩
      (segpartPath key lastPosition lastPosition)
      (by
        rw [Artifact.name, List.splitOn_eq_singleton (segpartPath_flat _ _ _)]
        exact List.mem_singleton_self _)
    change size _ ≤ _ at last
    rw [size_segpartPath, size_lastPosition] at last
    change partSize key + 51 ≤ _
    omega
  · exact nameable_of_short key

/-- A name of 253 letters is accepted, and no span of it can be staged. -/
theorem fullName_unnameable : Resolves defaultRoutes [] fullName ∧ ¬ Nameable fullName ∧
    ∀ start stop, nameMaxBytes < (bytesOf (segpartPath fullName start stop)).length := by
  have long : partSize fullName = 253 := partSize_replicate 253
  have parts (start stop : Nat) : nameMaxBytes < size (segpartPath fullName start stop) := by
    rw [size_segpartPath, long]
    change 255 < _
    omega
  refine ⟨fullName_resolves.1, fun nameable => ?_, parts⟩
  have first := nameable (.part fullName 0 0) rfl ⟨Nat.le_refl _, by decide⟩ (segpartPath fullName 0 0)
    (by
      rw [Artifact.name, List.splitOn_eq_singleton (segpartPath_flat _ _ _)]
      exact List.mem_singleton_self _)
  exact absurd first (Nat.not_le.mpr (parts 0 0))

end OriginCache.Cache.NameLengths
