import Mathlib.Data.List.Perm.Basic
import Mathlib.Data.List.Sort
import OriginCache.Foundation.Percent
import OriginCache.Cache.SegName

/-! The canonical texts a signature covers: the encoded path, the sorted query, the
signed headers. Each of them determines what it was made from. -/

namespace OriginCache.Request.Canonical
open Foundation.Splits Foundation.Percent
open Cache.SegName (Text)

/-! Texts are compared by code point, which is the order of their bytes. -/

def NotAfter (a b : Text) : Prop := ¬b < a

instance : DecidableRel NotAfter := fun _ _ => inferInstanceAs (Decidable (¬_))

theorem notAfter_total (a b : Text) : NotAfter a b ∨ NotAfter b a := by
  by_cases before : b < a
  · exact .inr (List.lt_asymm before)
  · exact .inl before

theorem notAfter_trans (a b c : Text) (first : NotAfter a b) (second : NotAfter b c) : NotAfter a c :=
  fun before => first (List.lt_of_le_of_lt second before)

theorem notAfter_antisymm (a b : Text) (first : NotAfter a b) (second : NotAfter b a) : a = b :=
  List.le_antisymm first second

instance : Std.Total NotAfter := ⟨notAfter_total⟩
instance : IsTrans Text NotAfter := ⟨notAfter_trans⟩

/-! Canonical primitives. -/

def unreserved (b : UInt8) : Bool :=
  (0x41 ≤ b ∧ b ≤ 0x5A) ∨ (0x61 ≤ b ∧ b ≤ 0x7A) ∨ (0x30 ≤ b ∧ b ≤ 0x39) ∨
    b = 0x5F ∨ b = 0x2D ∨ b = 0x7E ∨ b = 0x2E

/-- The bytes `uri_encode` writes as they are. -/
def literal (encodeSlash : Bool) (b : UInt8) : Bool :=
  unreserved b || (b == 0x2F && !encodeSlash)

def uriEncode (output input : Text) (encodeSlash : Bool) : Text :=
  output ++ encode (literal encodeSlash) input

def uriEncodeString (input : Text) (encodeSlash : Bool) : Text := uriEncode [] input encodeSlash

/-- `char::is_whitespace`. -/
def isWhitespace (c : Char) : Bool :=
  (0x09 ≤ c.toNat ∧ c.toNat ≤ 0x0D) ∨ c.toNat ∈ [0x20, 0x85, 0xA0, 0x1680] ∨
    (0x2000 ≤ c.toNat ∧ c.toNat ≤ 0x200A) ∨ c.toNat ∈ [0x2028, 0x2029, 0x202F, 0x205F, 0x3000]

def splitWhitespace (value : Text) : List Text :=
  (value.splitOnP isWhitespace).filter (· ≠ [])

def normalizeHeaderValue (out value : Text) : Text :=
  out ++ [' '].intercalate (splitWhitespace value)

def lowerDigits : List Char :=
  ['0', '1', '2', '3', '4', '5', '6', '7', '8', '9', 'a', 'b', 'c', 'd', 'e', 'f']

def hexPair (b : UInt8) : Text :=
  [lowerDigits.getD (b >>> 4).toNat '0', lowerDigits.getD (b &&& 15).toNat '0']

def hexEncode (bytes : List UInt8) : Text := bytes.flatMap hexPair

def isSha256Checksum (s : Text) : Bool :=
  (utf8 s).length = 64 ∧ (utf8 s).all fun b => (0x30 ≤ b ∧ b ≤ 0x39) ∨ (0x61 ≤ b ∧ b ≤ 0x66)

/-- Equality without an early exit. -/
def constantTimeEq (a b : List UInt8) : Bool :=
  if a.length ≠ b.length then false
  else (a.zip b).foldl (fun diff pair => diff ||| (pair.1 ^^^ pair.2)) 0 == 0

/-! Parameters of a presigned query. -/

def paramAlgorithm : Text := ['X', '-', 'A', 'm', 'z', '-', 'A', 'l', 'g', 'o', 'r', 'i', 't', 'h', 'm']
def paramCredential : Text := ['X', '-', 'A', 'm', 'z', '-', 'C', 'r', 'e', 'd', 'e', 'n', 't', 'i', 'a', 'l']
def paramDate : Text := ['X', '-', 'A', 'm', 'z', '-', 'D', 'a', 't', 'e']
def paramExpires : Text := ['X', '-', 'A', 'm', 'z', '-', 'E', 'x', 'p', 'i', 'r', 'e', 's']
def paramSignedHeaders : Text :=
  ['X', '-', 'A', 'm', 'z', '-', 'S', 'i', 'g', 'n', 'e', 'd', 'H', 'e', 'a', 'd', 'e', 'r', 's']
def paramSignature : Text := ['X', '-', 'A', 'm', 'z', '-', 'S', 'i', 'g', 'n', 'a', 't', 'u', 'r', 'e']
def paramSession : Text := ['s', 'e', 's', 's', 'i', 'o', 'n']

/-! Headers. -/

def headerHost : Text := ['h', 'o', 's', 't']
def headerAuthorization : Text := ['a', 'u', 't', 'h', 'o', 'r', 'i', 'z', 'a', 't', 'i', 'o', 'n']

def headerLookup (headers : List (Text × Text)) (name : Text) : List Text :=
  (headers.filter fun header => header.1 = name).map Prod.snd

/-- The signed headers in client order, or nothing when one is absent. -/
def signedPairs (lookup : Text → List Text) : List Text → Option (List (Text × Text))
  | [] => some []
  | name :: names =>
      if lookup name = [] then none
      else (signedPairs lookup names).map ((lookup name).map (name, ·) ++ ·)

/-- One line a name, its values joined by commas. -/
def renderHeaders : List (Text × Text) → Text
  | [] => []
  | (name, value) :: rest =>
      if name = headerAuthorization then renderHeaders rest
      else
        normalizeHeaderValue (name ++ [':']) value ++
          (rest.takeWhile fun pair => pair.1 = name).flatMap (fun pair => normalizeHeaderValue [','] pair.2) ++
            '\n' :: renderHeaders (rest.dropWhile fun pair => pair.1 = name)
termination_by pairs => pairs.length
decreasing_by
  · simp
  · have shorter := (List.dropWhile_suffix (l := rest) fun pair => decide (pair.1 = name)).length_le
    simpa using Nat.lt_succ_of_le shorter

def canonicalHeaders (signedNames : List Text) (lookup : Text → List Text) : Option Text :=
  (signedPairs lookup signedNames).map fun pairs =>
    renderHeaders (pairs.insertionSort fun a b => NotAfter a.1 b.1)

/-- A name that repeats its predecessor is dropped. -/
def seenNames (signedNames : List Text) : List Text :=
  signedNames.foldl (fun seen name => if seen.getLast? = some name then seen else seen ++ [name]) []

def signedHeadersList (signedNames : List Text) : Text := [';'].intercalate (seenNames signedNames)

/-! The query. -/

def encodePair (pair : Text × Text) : Text × Text :=
  (uriEncodeString pair.1 true, uriEncodeString pair.2 true)

def pairText (pair : Text × Text) : Text := pair.1 ++ '=' :: pair.2

/-- By encoded name, then by encoded value. -/
def PairOrder (a b : Text × Text) : Prop := a.1 < b.1 ∨ (a.1 = b.1 ∧ NotAfter a.2 b.2)

instance : DecidableRel PairOrder := fun _ _ => inferInstanceAs (Decidable (_ ∨ _))

def skipped (pairs : List (Text × Text)) (skipSignature : Bool) : List (Text × Text) :=
  pairs.filter fun pair => !(skipSignature && pair.1 == paramSignature)

def sortedQuery (pairs : List (Text × Text)) (skipSignature : Bool) : List (Text × Text) :=
  ((skipped pairs skipSignature).map encodePair).insertionSort PairOrder

def canonicalQuery (pairs : List (Text × Text)) (skipSignature : Bool) : Text :=
  ['&'].intercalate ((sortedQuery pairs skipSignature).map pairText)

/-! Encoding is undone by any decoder. -/

theorem literal_plain (encodeSlash : Bool) : Plain (literal encodeSlash) := by
  have each : ∀ n, n < 256 → literal encodeSlash (UInt8.ofNat n) = true →
      UInt8.ofNat n < 0x80 ∧ UInt8.ofNat n ≠ 0x25 := by
    cases encodeSlash <;> decide +kernel
  intro b kept
  have this := each b.toNat b.toNat_lt
  rw [UInt8.ofNat_toNat] at this
  exact this kept

@[simp] theorem uriEncodeString_eq (input : Text) (encodeSlash : Bool) :
    uriEncodeString input encodeSlash = encode (literal encodeSlash) input := rfl

theorem literal_latin (encodeSlash : Bool) (c : Char) (other : c ∈ ['\n', '=', '&']) :
    ∀ b, literal encodeSlash b = true → latin b ≠ c := by
  have each : (['\n', '=', '&'].all fun c => (List.range 256).all fun n =>
      !literal encodeSlash (UInt8.ofNat n) || latin (UInt8.ofNat n) != c) = true := by
    cases encodeSlash <;> decide +kernel
  intro b kept
  have this := List.all_eq_true.mp (List.all_eq_true.mp each c other) b.toNat (List.mem_range.mpr b.toNat_lt)
  rw [UInt8.ofNat_toNat, kept] at this
  simpa using this

/-- The separators of the canonical texts are never written by the encoder. -/
theorem separator_not_mem (encodeSlash : Bool) (input : Text) (c : Char) (other : c ∈ ['\n', '=', '&']) :
    c ∉ uriEncodeString input encodeSlash := by
  have apart : (['\n', '=', '&'].all fun c => c ≠ '%' ∧ c ∉ upperDigits) = true := by decide
  have differs := of_decide_eq_true (List.all_eq_true.mp apart c other)
  exact not_mem_encode _ input c differs.1 differs.2 (literal_latin encodeSlash c other)

theorem encodePair_injective (decoder : Decoder) : Function.Injective encodePair := by
  intro first second same
  have read := encode_injective decoder _ (literal_plain true)
  simp only [encodePair, Prod.mk.injEq, uriEncodeString_eq] at same
  exact Prod.ext (read same.1) (read same.2)

theorem hexPair_injective : Function.Injective hexPair := by
  intro a b same
  have digit : ∀ m, m < 16 → ∀ n, n < 16 → lowerDigits.getD m '0' = lowerDigits.getD n '0' → m = n := by
    decide
  simp only [hexPair, List.cons.injEq, and_true] at same
  have highA := highDigit a
  have lowA := lowDigit a
  have highB := highDigit b
  have lowB := lowDigit b
  have boundA := a.toNat_lt
  have boundB := b.toNat_lt
  have high := digit _ (by omega) _ (by omega) same.1
  have low := digit _ (by omega) _ (by omega) same.2
  apply UInt8.toNat_inj.mp
  omega

theorem newline_not_mem_hexEncode (bytes : List UInt8) : '\n' ∉ hexEncode bytes := by
  have digit : ∀ n, n < 16 → lowerDigits.getD n '0' ≠ '\n' := by decide
  intro member
  obtain ⟨b, -, written⟩ := List.mem_flatMap.mp member
  have high := highDigit b
  have low := lowDigit b
  have bound := b.toNat_lt
  simp only [hexPair, List.mem_cons, List.not_mem_nil, or_false] at written
  rcases written with first | second
  · exact digit _ (by omega) first.symm
  · exact digit _ (by omega) second.symm

theorem hexEncode_injective : Function.Injective hexEncode := by
  intro first
  induction first with
  | nil =>
    intro second same
    cases second with
    | nil => rfl
    | cons b second => simp [hexEncode, hexPair] at same
  | cons a first ih =>
    intro second same
    cases second with
    | nil => simp [hexEncode, hexPair] at same
    | cons b second =>
      have split : hexPair a ++ hexEncode first = hexPair b ++ hexEncode second := same
      have parts := List.append_inj split rfl
      rw [hexPair_injective parts.1, ih parts.2]

/-- The folded difference is zero exactly when there is none. -/
theorem foldl_diff_iff (a b : List UInt8) (diff : UInt8) (sameLength : a.length = b.length) :
    (a.zip b).foldl (fun diff pair => diff ||| (pair.1 ^^^ pair.2)) diff = 0 ↔ diff = 0 ∧ a = b := by
  induction a generalizing b diff with
  | nil =>
    rw [List.length_nil] at sameLength
    rw [List.eq_nil_of_length_eq_zero sameLength.symm]
    simp
  | cons x a ih =>
    cases b with
    | nil => simp at sameLength
    | cons y b =>
      rw [List.zip_cons_cons, List.foldl_cons, ih b _ (by simpa using sameLength),
        UInt8.or_eq_zero_iff, UInt8.xor_eq_zero_iff, List.cons.injEq, and_assoc]

theorem constantTimeEq_iff (a b : List UInt8) : constantTimeEq a b = true ↔ a = b := by
  unfold constantTimeEq
  by_cases sameLength : a.length = b.length
  · rw [if_neg (not_not_intro sameLength), beq_iff_eq, foldl_diff_iff a b 0 sameLength]
    exact and_iff_right rfl
  · rw [if_pos sameLength]
    apply iff_of_false Bool.false_ne_true
    rintro rfl
    exact sameLength rfl

/-! The query is read back up to its order. -/

theorem not_mem_pairText (pair : Text × Text) (c : Char) (other : c ∈ ['\n', '&']) :
    c ∉ pairText (encodePair pair) := by
  have apart : (['\n', '&'].all fun c => c ≠ '=' ∧ c ∈ ['\n', '=', '&']) = true := by decide
  obtain ⟨differs, separator⟩ := of_decide_eq_true (List.all_eq_true.mp apart c other)
  intro member
  rcases List.mem_append.mp member with name | rest
  · exact separator_not_mem true pair.1 c separator name
  · rcases List.mem_cons.mp rest with mark | value
    · exact differs mark
    · exact separator_not_mem true pair.2 c separator value

theorem pairText_injective (decoder : Decoder) :
    Function.Injective fun pair => pairText (encodePair pair) := by
  intro first second same
  have parts := append_cons_inj '=' same (separator_not_mem true first.1 '=' (by decide))
    (separator_not_mem true second.1 '=' (by decide))
  exact encodePair_injective decoder (Prod.ext parts.1 parts.2)

/-- The parts of a canonical query are those of the query, in some order. -/
theorem sortedQuery_perm (pairs : List (Text × Text)) (skipSignature : Bool) :
    ((sortedQuery pairs skipSignature).map pairText).Perm
      ((skipped pairs skipSignature).map fun pair => pairText (encodePair pair)) := by
  have sorted := (List.perm_insertionSort PairOrder
    ((skipped pairs skipSignature).map encodePair)).map pairText
  rwa [List.map_map] at sorted

/-- Two queries with one canonical text hold the same pairs. -/
theorem canonicalQuery_inj (decoder : Decoder) (first second : List (Text × Text)) (skipSignature : Bool)
    (same : canonicalQuery first skipSignature = canonicalQuery second skipSignature) :
    (skipped first skipSignature).Perm (skipped second skipSignature) := by
  have free : ∀ pairs : List (Text × Text),
      ∀ part ∈ (sortedQuery pairs skipSignature).map pairText, '&' ∉ part ∧ part ≠ [] := by
    intro pairs part member
    have kept := (sortedQuery_perm pairs skipSignature).mem_iff.mp member
    obtain ⟨pair, -, rfl⟩ := List.mem_map.mp kept
    exact ⟨not_mem_pairText pair '&' (by decide), by simp [pairText]⟩
  have parts := intercalate_inj '&' _ _ (free first) (free second) same
  have read := (sortedQuery_perm first skipSignature).symm.trans
    ((List.Perm.of_eq parts).trans (sortedQuery_perm second skipSignature))
  exact (List.map_perm_map_iff (pairText_injective decoder)).mp read

theorem newline_not_mem_canonicalQuery (pairs : List (Text × Text)) (skipSignature : Bool) :
    '\n' ∉ canonicalQuery pairs skipSignature := by
  intro member
  rcases mem_intercalate '&' '\n' _ member with mark | ⟨part, inside, holds⟩
  · exact absurd mark (by decide)
  · have kept := (sortedQuery_perm pairs skipSignature).mem_iff.mp inside
    obtain ⟨pair, -, rfl⟩ := List.mem_map.mp kept
    exact not_mem_pairText pair '\n' (by decide) holds

/-! Headers when `host` is the only one. -/

def normalized (value : Text) : Text := normalizeHeaderValue [] value

theorem normalizeHeaderValue_eq (out value : Text) :
    normalizeHeaderValue out value = out ++ normalized value := rfl

theorem newline_not_mem_normalized (value : Text) : '\n' ∉ normalized value := by
  intro member
  rcases mem_intercalate ' ' '\n' _ member with mark | ⟨word, inside, holds⟩
  · exact absurd mark (by decide)
  · have free := splitOnP_free isWhitespace value word (List.mem_filter.mp inside).1 '\n' holds
    exact absurd free (by decide)

/-- The header line of `host` signed `count + 1` times. -/
def hostLine (count : Nat) (host : Text) : Text :=
  headerHost ++ ':' :: (normalized host ++ (List.replicate count (',' :: normalized host)).flatten)

theorem headerLookup_host (host name : Text) (present : headerLookup [(headerHost, host)] name ≠ []) :
    name = headerHost ∧ headerLookup [(headerHost, host)] name = [host] := by
  by_cases same : headerHost = name
  · subst same
    exact ⟨rfl, by simp [headerLookup]⟩
  · exact absurd (by simp [headerLookup, same]) present

theorem signedPairs_host (host : Text) (names : List Text) (pairs : List (Text × Text))
    (found : signedPairs (headerLookup [(headerHost, host)]) names = some pairs) :
    pairs = List.replicate names.length (headerHost, host) := by
  induction names generalizing pairs with
  | nil => exact (Option.some.inj found).symm
  | cons name names ih =>
    rw [signedPairs] at found
    by_cases absent : headerLookup [(headerHost, host)] name = []
    · rw [if_pos absent] at found
      cases found
    · rw [if_neg absent] at found
      obtain ⟨named, value⟩ := headerLookup_host host name absent
      obtain ⟨rest, later, whole⟩ := Option.map_eq_some_iff.mp found
      rw [← whole, value, ih rest later, named]
      rfl

theorem renderHeaders_host (count : Nat) (host : Text) :
    renderHeaders (List.replicate (count + 1) (headerHost, host)) = hostLine count host ++ ['\n'] := by
  have other : ¬headerHost = headerAuthorization := by decide
  have kept : (List.replicate count (headerHost, host)).takeWhile (fun pair => pair.1 = headerHost) =
      List.replicate count (headerHost, host) := by
    rw [List.takeWhile_replicate, if_pos (by simp)]
  have gone : (List.replicate count (headerHost, host)).dropWhile (fun pair => pair.1 = headerHost) = [] := by
    rw [List.dropWhile_replicate, if_pos (by simp)]
  rw [List.replicate_succ, renderHeaders, if_neg other, kept, gone, renderHeaders,
    List.flatMap_replicate, normalizeHeaderValue_eq, normalizeHeaderValue_eq]
  simp [hostLine]

/-- Only `host` can be signed when it is the only header there is. -/
theorem canonicalHeaders_host (host : Text) (names : List Text) (text : Text) (signed : names ≠ [])
    (found : canonicalHeaders names (headerLookup [(headerHost, host)]) = some text) :
    text = hostLine (names.length - 1) host ++ ['\n'] := by
  obtain ⟨pairs, looked, rendered⟩ := Option.map_eq_some_iff.mp found
  have same := signedPairs_host host names pairs looked
  have sorted : pairs.insertionSort (fun a b => NotAfter a.1 b.1) =
      List.replicate names.length (headerHost, host) := by
    apply List.perm_replicate.mp
    exact (List.perm_insertionSort _ _).trans (List.Perm.of_eq same)
  have length : names.length = names.length - 1 + 1 :=
    (Nat.sub_add_cancel (List.length_pos_iff.mpr signed)).symm
  rw [← rendered, sorted, length, renderHeaders_host, Nat.add_sub_cancel]

theorem newline_not_mem_hostLine (count : Nat) (host : Text) : '\n' ∉ hostLine count host := by
  have free := newline_not_mem_normalized host
  simp [hostLine, headerHost, free]

theorem hostLine_inj (count : Nat) (first second : Text)
    (same : hostLine count first = hostLine count second) : normalized first = normalized second := by
  have tails := (List.cons.inj (List.append_cancel_left same)).2
  have lengths := congrArg List.length tails
  simp only [List.length_append, List.length_flatten, List.map_replicate, List.sum_replicate_nat,
    List.length_cons] at lengths
  have sized : (normalized first).length = (normalized second).length := by
    have grows : ∀ a b, a < b → a + count * (a + 1) < b + count * (b + 1) := by
      intro a b below
      have most : count * (a + 1) ≤ count * (b + 1) := Nat.mul_le_mul_left count (by omega)
      omega
    rcases Nat.lt_trichotomy (normalized first).length (normalized second).length with less | same | more
    · exact absurd lengths (Nat.ne_of_lt (grows _ _ less))
    · exact same
    · exact absurd lengths (Nat.ne_of_gt (grows _ _ more))
  exact (List.append_inj tails sized).1

end OriginCache.Request.Canonical
