import OriginCache.Cache.Key

/-! Where the files of a key are: the paths of the cache directory with their empty and
`.` components removed. -/

namespace OriginCache.Cache.Paths
open Foundation.Splits SegName Key

/-- `Path::join`. -/
def join (dir name : Text) : Text :=
  if name.head? = some '/' then name
  else if dir = [] ∨ dir.getLast? = some '/' then dir ++ name
  else dir ++ '/' :: name

def filePath (dir key : Text) : Text := join dir key

def tmpPrefix : Text := ['.', 't', 'm', 'p', '.']

/-- `{:08x}` of a `u32`. -/
def hexWord (rand : BitVec 32) : Text :=
  (List.range 8).map fun i => Nat.digitChar (rand.toNat / 16 ^ (7 - i) % 16)

/-- Slashes are flattened, so that nested keys still land in a flat file. -/
def tmpName (key : Text) (rand : BitVec 32) : Text :=
  tmpPrefix ++ (replaceChar '/' ['_'] key ++ '.' :: hexWord rand)

def tmpPath (dir key : Text) (rand : BitVec 32) : Text := join dir (tmpName key rand)

/-! What stands in the cache directory. -/

inductive Artifact
  | object (key : Text)
  | temp (key : Text) (rand : BitVec 32)
  | segment (key : Text) (start stop : Nat)
  | part (key : Text) (start stop : Nat)
  | marker (key : Text)
  | metadata (suffix : Text)

inductive Kind
  | object | temp | segment | part | marker | metadata
deriving DecidableEq, Repr

def Artifact.kind : Artifact → Kind
  | .object _ => .object
  | .temp _ _ => .temp
  | .segment _ _ _ => .segment
  | .part _ _ _ => .part
  | .marker _ => .marker
  | .metadata _ => .metadata

def Artifact.key? : Artifact → Option Text
  | .object key | .temp key _ | .segment key _ _ | .part key _ _ | .marker key => some key
  | .metadata _ => none

/-- The store is `redb.db`, and its archives add a suffix. -/
def Artifact.name : Artifact → Text
  | .object key => key
  | .temp key rand => tmpName key rand
  | .segment key start stop => segPath key start stop
  | .part key start stop => segpartPath key start stop
  | .marker key => segmetaPath key
  | .metadata suffix => metaStoreFile ++ suffix

def Artifact.path (dir : Text) (artifact : Artifact) : Text := join dir artifact.name

def solid (part : Text) : Bool := part ≠ [] ∧ part ≠ ['.']

/-- Whether a path is absolute, and its components but the empty ones and the dots. -/
def normalise (path : Text) : Bool × List Text :=
  (path.head? = some '/', (path.splitOn '/').filter solid)

/-! Decoding goes by components: no escape and no character reaches over a slash. -/

theorem bytesOf_append (first second : Text) : bytesOf (first ++ second) = bytesOf first ++ bytesOf second :=
  List.flatMap_append

theorem bytesOf_slash (first second : Text) : bytesOf (first ++ '/' :: second) = bytesOf first ++ 0x2F :: bytesOf second := by
  rw [bytesOf_append, bytesOf_cons, encodeChar_ascii '/' (by decide)]
  rfl

theorem decodeBytes_plain (b : UInt8) (rest : List UInt8) (plain : b ≠ 0x25) :
    decodeBytes (b :: rest) = (decodeBytes rest).map (b :: ·) := by
  rcases rest with _ | ⟨hi, _ | ⟨lo, tail⟩⟩ <;> simp [decodeBytes, plain]

theorem decodeBytes_escape (hi lo : UInt8) (tail : List UInt8) : decodeBytes (0x25 :: hi :: lo :: tail) =
    (hexVal hi).bind fun high => (hexVal lo).bind fun low =>
      (decodeBytes tail).map fun out => UInt8.ofNat (16 * high + low) :: out := by
  simp only [decodeBytes, if_true, Option.bind_eq_bind, Option.map_eq_bind]
  rfl

theorem decodeBytes_slash (first second : List UInt8) : decodeBytes (first ++ 0x2F :: second) =
    (decodeBytes first).bind fun x => (decodeBytes second).map fun y => x ++ 0x2F :: y := by
  have slash : hexVal 0x2F = none := by decide
  induction length : first.length using Nat.strong_induction_on generalizing first with
  | h n ih =>
    cases first with
    | nil => exact decodeBytes_plain 0x2F second (by decide)
    | cons b rest =>
      by_cases escape : b = 0x25
      · subst escape
        rcases rest with _ | ⟨hi, _ | ⟨lo, tail⟩⟩
        · cases second with
          | nil => rfl
          | cons lo tail =>
            rw [List.singleton_append, decodeBytes_escape, slash]
            rfl
        · rw [List.cons_append, List.singleton_append, decodeBytes_escape, slash]
          cases hexVal hi <;> rfl
        · have later := ih tail.length (by rw [← length]; simp only [List.length_cons]; omega) tail rfl
          rw [List.cons_append, List.cons_append, List.cons_append, decodeBytes_escape, decodeBytes_escape, later]
          cases hexVal hi with
          | none => rfl
          | some high =>
            cases hexVal lo with
            | none => rfl
            | some low => cases decodeBytes tail <;> cases decodeBytes second <;> rfl
      · have later := ih rest.length (by rw [← length]; exact Nat.lt_succ_self _) rest rfl
        rw [List.cons_append, decodeBytes_plain b _ escape, decodeBytes_plain b _ escape, later]
        cases decodeBytes rest <;> cases decodeBytes second <;> rfl

/-- A slash byte is a slash. -/
theorem bytesOf_eq_slash (text : Text) (first second : List UInt8) (whole : bytesOf text = first ++ 0x2F :: second) :
    ∃ front back, text = front ++ '/' :: back ∧ bytesOf front = first ∧ bytesOf back = second := by
  induction text generalizing first with
  | nil => exact absurd whole.symm (List.append_ne_nil_of_right_ne_nil _ (List.cons_ne_nil _ _))
  | cons c text ih =>
    rw [bytesOf_cons] at whole
    by_cases slash : c = '/'
    · subst slash
      rw [encodeChar_ascii '/' (by decide), List.singleton_append] at whole
      cases first with
      | nil =>
        rw [List.nil_append] at whole
        exact ⟨[], text, rfl, rfl, (List.cons.inj whole).2⟩
      | cons b first =>
        obtain ⟨same, rest⟩ := List.cons.inj whole
        obtain ⟨front, back, rfl, rfl, rfl⟩ := ih first rest
        refine ⟨'/' :: front, back, rfl, ?_, rfl⟩
        rw [bytesOf_cons, encodeChar_ascii '/' (by decide), List.singleton_append, ← same]
    · have free : (0x2F : UInt8) ∉ String.utf8EncodeChar c := by
        intro member
        by_cases percent : c = '%'
        · subst percent
          exact absurd member (by decide)
        · exact (plain_bytes c percent slash _ member).2 rfl
      obtain ⟨later, rfl, rest⟩ : ∃ later, first = String.utf8EncodeChar c ++ later ∧ bytesOf text = later ++ 0x2F :: second := by
        rcases List.append_eq_append_iff.mp whole with ⟨later, split, rest⟩ | ⟨later, split, rest⟩
        · exact ⟨later, split, rest⟩
        · cases later with
          | nil =>
            rw [List.append_nil] at split
            rw [List.nil_append] at rest
            exact ⟨[], by rw [List.append_nil, split], rest.symm⟩
          | cons b later =>
            have head := (List.cons.inj rest).1
            exact absurd (by rw [split, ← head]; simp) free
      obtain ⟨front, back, rfl, rfl, rfl⟩ := ih later rest
      exact ⟨c :: front, back, rfl, bytesOf_cons c front, rfl⟩

/-- What a text decodes to. -/
def Decodes (text decoded : Text) : Prop := percentDecode text = .ok decoded

theorem decodes_iff (text decoded : Text) : Decodes text decoded ↔ decodeBytes (bytesOf text) = some (bytesOf decoded) := by
  have read : Decodes text decoded ↔ (decodeBytes (bytesOf text)).bind fromUtf8 = some decoded := by
    unfold Decodes percentDecode
    cases (decodeBytes (bytesOf text)).bind fromUtf8 <;> simp
  rw [read, Option.bind_eq_some_iff]
  constructor
  · rintro ⟨bytes, found, same⟩
    rw [found, (fromUtf8_iff bytes decoded).mp same]
  · intro found
    exact ⟨_, found, (fromUtf8_iff _ decoded).mpr rfl⟩

theorem decodes_slash (first second decoded : Text) : Decodes (first ++ '/' :: second) decoded ↔
    ∃ front back, Decodes first front ∧ Decodes second back ∧ decoded = front ++ '/' :: back := by
  simp only [decodes_iff, bytesOf_slash, decodeBytes_slash, Option.bind_eq_some_iff, Option.map_eq_some_iff]
  constructor
  · rintro ⟨x, found, y, next, whole⟩
    obtain ⟨front, back, rfl, rfl, rfl⟩ := bytesOf_eq_slash decoded x y whole.symm
    exact ⟨front, back, found, next, rfl⟩
  · rintro ⟨front, back, found, next, rfl⟩
    exact ⟨_, found, _, next, (bytesOf_slash front back).symm⟩

/-! What validation asks of the components. -/

theorem splitOn_cases (raw : Text) : ('/' ∉ raw ∧ raw.splitOn '/' = [raw]) ∨
    ∃ front rest, raw = front ++ '/' :: rest ∧ '/' ∉ front ∧ raw.splitOn '/' = front :: rest.splitOn '/' := by
  by_cases slash : '/' ∈ raw
  · obtain ⟨front, rest, rfl, free⟩ := List.eq_append_cons_of_mem slash
    exact .inr ⟨front, rest, rfl, free, by rw [List.splitOn_append_cons_self, List.splitOn_eq_singleton free]; rfl⟩
  · exact .inl ⟨slash, List.splitOn_eq_singleton slash⟩

theorem split_induction (Held : Text → Prop) (free : ∀ part, '/' ∉ part → Held part)
    (slash : ∀ front rest, '/' ∉ front → Held rest → Held (front ++ '/' :: rest)) (raw : Text) : Held raw := by
  induction length : raw.length using Nat.strong_induction_on generalizing raw with
  | h n ih =>
    rcases splitOn_cases raw with ⟨alone, -⟩ | ⟨front, rest, rfl, whole, -⟩
    · exact free raw alone
    · have shorter : rest.length < n := by
        rw [← length, List.length_append, List.length_cons]
        omega
      exact slash front rest whole (ih rest.length shorter rest rfl)

/-- What is asked of a path wherever it stands. -/
structure Body (raw : Text) : Prop where
  nul : '\x00' ∉ raw
  backslash : '\\' ∉ raw
  decodes : ∃ decoded, Decodes raw decoded ∧ '\x00' ∉ decoded ∧ '\\' ∉ decoded ∧ dotDot ∉ decoded.splitOn '/'
  parts : ∀ part ∈ raw.splitOn '/', part ≠ dotDot ∧ part ∉ encodedDotDots

/-- What is asked of the component that a path begins with. -/
def Leads (part : Text) : Prop := part ≠ [] ∧ ∀ decoded, Decodes part decoded → decoded.head? ≠ some '/'

theorem any_dots (parts : List Text) : parts.any (fun part => part = dotDot ∨ part ∈ encodedDotDots) = false ↔
    ∀ part ∈ parts, part ≠ dotDot ∧ part ∉ encodedDotDots := by
  simp only [List.any_eq_false, decide_eq_true_eq, not_or, ne_eq]

theorem validateKey_iff (raw : Text) : validateKey raw = .ok raw ↔
    Body raw ∧ raw ≠ [] ∧ raw.head? ≠ some '/' ∧ ∀ decoded, Decodes raw decoded → decoded.head? ≠ some '/' := by
  simp only [validateKey, bind, Except.bind, pure, Except.pure, throw, throwThe, MonadExceptOf.throw]
  by_cases empty : raw = []
  · simp [empty]
  by_cases nul : '\x00' ∈ raw
  · simp only [empty, nul, if_true, if_false, reduceCtorEq, false_iff]
    exact fun held => held.1.nul nul
  by_cases backslash : '\\' ∈ raw
  · simp only [empty, nul, backslash, if_true, if_false, reduceCtorEq, false_iff]
    exact fun held => held.1.backslash backslash
  by_cases slash : raw.head? = some '/'
  · simp [empty, nul, backslash, slash]
  cases read : percentDecode raw with
  | error problem =>
    simp only [empty, nul, backslash, slash, if_false, reduceCtorEq, false_iff]
    intro held
    obtain ⟨decoded, found, -⟩ := held.1.decodes
    rw [Decodes, read] at found
    cases found
  | ok decoded =>
    have only (other : Text) (found : Decodes raw other) : other = decoded := by
      rw [Decodes, read] at found
      exact (Except.ok.inj found).symm
    simp only [empty, nul, backslash, slash, if_false]
    by_cases clean : '\x00' ∉ decoded ∧ '\\' ∉ decoded ∧ decoded.head? ≠ some '/' ∧ dotDot ∉ decoded.splitOn '/' ∧
        (raw.splitOn '/').any (fun part => part = dotDot ∨ part ∈ encodedDotDots) = false
    · obtain ⟨nul', backslash', slash', dots, parts⟩ := clean
      simp only [nul', backslash', slash', dots, parts, if_false, Bool.false_eq_true, true_iff]
      refine ⟨⟨nul, backslash, ⟨decoded, read, nul', backslash', dots⟩, (any_dots _).mp parts⟩, empty, slash, ?_⟩
      intro other found
      rw [only other found]
      exact slash'
    · constructor
      · intro ok
        refine absurd ?_ clean
        repeat' split at ok
        all_goals simp_all
      · intro held
        obtain ⟨other, found, nul', backslash', dots⟩ := held.1.decodes
        obtain rfl := only other found
        exact absurd ⟨nul', backslash', held.2.2.2 other found, dots, (any_dots _).mpr held.1.parts⟩ clean

theorem body_slash (first second : Text) : Body (first ++ '/' :: second) ↔ Body first ∧ Body second := by
  constructor
  · intro body
    obtain ⟨decoded, whole, nul, backslash, dots⟩ := body.decodes
    obtain ⟨front, back, left, right, rfl⟩ := (decodes_slash first second decoded).mp whole
    have parts := body.parts
    rw [List.splitOn_append_cons_self] at parts dots
    constructor
    · constructor
      · exact fun member => body.nul (List.mem_append_left _ member)
      · exact fun member => body.backslash (List.mem_append_left _ member)
      · exact ⟨front, left, fun member => nul (List.mem_append_left _ member),
          fun member => backslash (List.mem_append_left _ member), fun member => dots (List.mem_append_left _ member)⟩
      · exact fun part member => parts part (List.mem_append_left _ member)
    · constructor
      · exact fun member => body.nul (List.mem_append_right _ (List.mem_cons_of_mem _ member))
      · exact fun member => body.backslash (List.mem_append_right _ (List.mem_cons_of_mem _ member))
      · exact ⟨back, right, fun member => nul (List.mem_append_right _ (List.mem_cons_of_mem _ member)),
          fun member => backslash (List.mem_append_right _ (List.mem_cons_of_mem _ member)),
          fun member => dots (List.mem_append_right _ member)⟩
      · exact fun part member => parts part (List.mem_append_right _ member)
  · rintro ⟨one, two⟩
    obtain ⟨front, left, nul₁, backslash₁, dots₁⟩ := one.decodes
    obtain ⟨back, right, nul₂, backslash₂, dots₂⟩ := two.decodes
    constructor
    · simp [one.nul, two.nul]
    · simp [one.backslash, two.backslash]
    · refine ⟨front ++ '/' :: back, (decodes_slash _ _ _).mpr ⟨front, back, left, right, rfl⟩, ?_, ?_, ?_⟩
      · simp [nul₁, nul₂]
      · simp [backslash₁, backslash₂]
      · rw [List.splitOn_append_cons_self]
        simp [dots₁, dots₂]
    · rw [List.splitOn_append_cons_self]
      intro part member
      cases List.mem_append.mp member with
      | inl here => exact one.parts part here
      | inr there => exact two.parts part there

theorem body_parts (raw : Text) : Body raw ↔ ∀ part ∈ raw.splitOn '/', Body part := by
  induction raw using split_induction with
  | free part free => rw [List.splitOn_eq_singleton free, List.forall_mem_singleton]
  | slash front rest free ih => rw [body_slash, List.splitOn_append_cons_self_of_not_mem free, List.forall_mem_cons, ih]

theorem decodes_unique (text first second : Text) (one : Decodes text first) (two : Decodes text second) : first = second :=
  Except.ok.inj (one.symm.trans two)

theorem decodes_ne_nil (part decoded : Text) (read : Decodes part decoded) (filled : part ≠ []) : decoded ≠ [] := by
  rintro rfl
  rw [decodes_iff] at read
  cases part with
  | nil => exact filled rfl
  | cons c part =>
    have some_ : bytesOf (c :: part) ≠ [] := by
      rw [bytesOf_cons]
      exact List.append_ne_nil_of_left_ne_nil (String.utf8EncodeChar_ne_nil) _
    cases bytes : bytesOf (c :: part) with
    | nil => exact some_ bytes
    | cons b rest =>
      rw [bytes] at read
      by_cases escape : b = 0x25
      · subst escape
        rcases rest with _ | ⟨hi, _ | ⟨lo, tail⟩⟩
        · cases read
        · cases read
        · rw [decodeBytes_escape] at read
          simp [Option.bind_eq_some_iff, bytesOf] at read
      · rw [decodeBytes_plain b rest escape] at read
        simp [Option.map_eq_some_iff, bytesOf] at read

theorem head_append (first second : Text) (filled : first ≠ []) : (first ++ second).head? = first.head? := by
  cases first with
  | nil => exact absurd rfl filled
  | cons c first => rfl

theorem head_free (part : Text) (free : '/' ∉ part) : part.head? ≠ some '/' :=
  fun head => free (List.mem_of_mem_head? head)

/-- The first component is where a path begins. -/
theorem leads_iff (raw part : Text) (parts : List Text) (split : raw.splitOn '/' = part :: parts)
    (readable : ∃ decoded, Decodes raw decoded) :
    Leads part ↔ raw ≠ [] ∧ raw.head? ≠ some '/' ∧ ∀ decoded, Decodes raw decoded → decoded.head? ≠ some '/' := by
  rcases splitOn_cases raw with ⟨free, alone⟩ | ⟨front, rest, rfl, free, whole⟩
  · obtain ⟨rfl, -⟩ := List.cons.inj (alone.symm.trans split)
    constructor
    · exact fun leads => ⟨leads.1, head_free raw free, leads.2⟩
    · exact fun held => ⟨held.1, held.2.2⟩
  · obtain ⟨rfl, -⟩ := List.cons.inj (whole.symm.trans split)
    obtain ⟨decoded, read⟩ := readable
    obtain ⟨opening, closing, left, right, rfl⟩ := (decodes_slash front rest decoded).mp read
    constructor
    · intro leads
      have filled := decodes_ne_nil front opening left leads.1
      refine ⟨List.append_ne_nil_of_left_ne_nil leads.1 _, ?_, ?_⟩
      · rw [head_append _ _ leads.1]
        exact head_free front free
      · intro other found
        rw [decodes_unique _ _ _ found read, head_append _ _ filled]
        exact leads.2 opening left
    · rintro ⟨-, head, decoded⟩
      have filled : front ≠ [] := by
        rintro rfl
        exact head rfl
      refine ⟨filled, ?_⟩
      intro other found
      rw [decodes_unique _ _ _ found left, ← head_append _ ('/' :: closing) (decodes_ne_nil front opening left filled)]
      exact decoded _ read

/-! The length of a path is the length of its components. -/

def partSize (part : Text) : Nat := (bytesOf (escapeKey part)).length

/-- Every component weighs its own size and that of an escaped slash. -/
def weight : List Text → Nat
  | [] => 0
  | part :: parts => 3 + partSize part + weight parts

theorem partSize_append (first second : Text) : partSize (first ++ second) = partSize first + partSize second := by
  simp only [partSize, escapeKey_eq, List.flatMap_append, bytesOf_append, List.length_append]

theorem partSize_slash (first second : Text) : partSize (first ++ '/' :: second) = partSize first + 3 + partSize second := by
  have slash : partSize ['/'] = 3 := by decide
  calc
    partSize (first ++ '/' :: second) = partSize first + (partSize ['/'] + partSize second) := by
      rw [← partSize_append, ← partSize_append, List.singleton_append]
    _ = partSize first + 3 + partSize second := by
      rw [slash]
      omega

theorem weight_append (first second : List Text) : weight (first ++ second) = weight first + weight second := by
  induction first with
  | nil => exact (Nat.zero_add _).symm
  | cons part first ih =>
    change 3 + partSize part + weight (first ++ second) = 3 + partSize part + weight first + weight second
    omega

theorem weight_split (raw : Text) : weight (raw.splitOn '/') = partSize raw + 3 := by
  induction raw using split_induction with
  | free part free =>
    rw [List.splitOn_eq_singleton free]
    change 3 + partSize part + 0 = partSize part + 3
    omega
  | slash front rest free ih =>
    rw [List.splitOn_append_cons_self_of_not_mem free, partSize_slash]
    change 3 + partSize front + weight (rest.splitOn '/') = partSize front + 3 + partSize rest + 3
    omega

/-! Which lists of components make a key. -/

/-- Some request path resolves to the key. -/
def Resolves (routes : RouteTable) (buckets : List Text) (key : Text) : Prop :=
  ∃ raw resolved, resolveKey raw routes buckets = .ok resolved ∧ resolved.cacheKey = key

theorem splitBucket_free (raw : Text) (ids : List Text) (free : '/' ∉ raw) : splitBucket raw ids = none := by
  have none_ : splitOnce '/' raw = none := by
    cases cut : splitOnce '/' raw with
    | none => rfl
    | some parts =>
      have whole := splitOnce_some '/' raw parts.1 parts.2 cut
      exact absurd (by rw [whole]; simp) free
  simp only [splitBucket, none_, Option.bind_eq_bind, Option.bind_none]

theorem splitBucket_front (front rest : Text) (ids : List Text) (free : '/' ∉ front) :
    splitBucket (front ++ '/' :: rest) ids = if rest = [] ∨ front ∉ ids then none else some (front, rest) := by
  simp only [splitBucket, splitOnce_append '/' front rest free, Option.bind_eq_bind, Option.bind_some]

theorem resolves_iff (routes : RouteTable) (buckets : List Text) (key : Text) : Resolves routes buckets key ↔
    validateKey key = .ok key ∧ rejectUnstorable key key = .ok () ∧
      ∀ bucket rest, splitBucket key buckets = some (bucket, rest) → validateKey rest = .ok rest := by
  constructor
  · rintro ⟨raw, resolved, ok, rfl⟩
    obtain ⟨same, -, stored⟩ := resolveKey_ok raw routes buckets resolved ok
    rw [same]
    unfold resolveKey at ok
    cases valid : validateKey raw with
    | error problem => cases cut : splitBucket raw buckets <;> simp [cut, valid, bind, Except.bind] at ok
    | ok cacheKey =>
      obtain rfl := validateKey_ok raw cacheKey valid
      refine ⟨rfl, stored, ?_⟩
      intro bucket rest cut
      simp only [cut, valid, stored, bind, Except.bind] at ok
      cases backend : validateKey rest with
      | error problem => simp [backend] at ok
      | ok backendKey => rw [validateKey_ok rest backendKey backend]
  · rintro ⟨valid, stored, backend⟩
    cases cut : splitBucket key buckets with
    | none => exact ⟨key, ⟨key, key, routes.resolve key⟩, by simp [resolveKey, cut, valid, stored, bind, Except.bind, pure, Except.pure], rfl⟩
    | some parts =>
      have rest := backend parts.1 parts.2 cut
      exact ⟨key, ⟨key, parts.2, parts.1⟩,
        by simp [resolveKey, cut, valid, stored, rest, bind, Except.bind, pure, Except.pure], rfl⟩

/-- What resolution asks of a path, by its components. The rest of a path that names
a bucket is validated again as a path of its own. -/
structure Accepted (buckets : List Text) (first : Text) (later : List Text) : Prop where
  body : ∀ part ∈ first :: later, Body part
  leads : Leads first
  fits : partSize first + weight later ≤ nameMaxBytes
  free : first.head? ≠ some '.' ∧ isMetaStoreName first = false
  backend : first ∈ buckets → later ≠ [[]] → ∀ next rest, later = next :: rest → Leads next

theorem validate_parts (raw first : Text) (later : List Text) (split : raw.splitOn '/' = first :: later) :
    validateKey raw = .ok raw ↔ (∀ part ∈ first :: later, Body part) ∧ Leads first := by
  rw [validateKey_iff, ← split, ← body_parts]
  constructor
  · rintro ⟨body, leads⟩
    obtain ⟨decoded, read, -⟩ := body.decodes
    exact ⟨body, (leads_iff raw first later split ⟨decoded, read⟩).mpr leads⟩
  · rintro ⟨body, leads⟩
    obtain ⟨decoded, read, -⟩ := body.decodes
    exact ⟨body, (leads_iff raw first later split ⟨decoded, read⟩).mp leads⟩

theorem stored_parts (raw first : Text) (later : List Text) (split : raw.splitOn '/' = first :: later) :
    rejectUnstorable raw raw = .ok () ↔
      partSize first + weight later ≤ nameMaxBytes ∧ first.head? ≠ some '.' ∧ isMetaStoreName first = false := by
  have whole := weight_split raw
  rw [split] at whole
  change 3 + partSize first + weight later = partSize raw + 3 at whole
  have size : (bytesOf (escapeKey raw)).length = partSize first + weight later := by
    change partSize raw = _
    omega
  have reserved : isReservedKey raw = true ↔ first.head? = some '.' ∨ isMetaStoreName first = true := by
    simp only [isReservedKey, split, List.headD_cons, Bool.decide_or, Bool.or_eq_true, decide_eq_true_eq]
  unfold rejectUnstorable storable
  rw [size]
  by_cases long : nameMaxBytes < partSize first + weight later
  · simp [long, bind, Except.bind, throw, throwThe, MonadExceptOf.throw]
  · have fits : partSize first + weight later ≤ nameMaxBytes := Nat.le_of_not_lt long
    by_cases named : first.head? = some '.' ∨ isMetaStoreName first = true
    · simp only [long, reserved.mpr named, bind, Except.bind, throw, throwThe, MonadExceptOf.throw, if_false, if_true,
        pure, Except.pure, reduceCtorEq, false_iff]
      intro held
      cases named with
      | inl dot => exact held.2.1 dot
      | inr store => exact absurd store (by rw [held.2.2]; exact Bool.false_ne_true)
    · have clear : isReservedKey raw = false := Bool.eq_false_iff.mpr fun held => named (reserved.mp held)
      obtain ⟨dot, store⟩ := not_or.mp named
      simp [long, clear, fits, dot, Bool.eq_false_iff.mpr store, pure, Except.pure]

theorem resolves_parts (routes : RouteTable) (buckets : List Text) (key first : Text) (later : List Text)
    (split : key.splitOn '/' = first :: later) : Resolves routes buckets key ↔ Accepted buckets first later := by
  rw [resolves_iff, validate_parts key first later split, stored_parts key first later split]
  have backend : (∀ part ∈ first :: later, Body part) →
      ((∀ bucket rest, splitBucket key buckets = some (bucket, rest) → validateKey rest = .ok rest) ↔
        (first ∈ buckets → later ≠ [[]] → ∀ next rest, later = next :: rest → Leads next)) := by
    intro body
    rcases splitOn_cases key with ⟨free, alone⟩ | ⟨front, back, rfl, free, whole⟩
    · obtain ⟨rfl, rfl⟩ := List.cons.inj (split.symm.trans alone)
      simp [splitBucket_free _ buckets free]
    · obtain ⟨rfl, rfl⟩ := List.cons.inj (split.symm.trans whole)
      rw [splitBucket_front _ _ _ free]
      by_cases skip : back = [] ∨ first ∉ buckets
      · rw [if_pos skip]
        constructor
        · intro _ known named
          cases skip with
          | inl empty => exact absurd (by rw [empty]; rfl) named
          | inr unknown => exact absurd known unknown
        · intro _ bucket rest cut
          cases cut
      · rw [if_neg skip]
        obtain ⟨filled, known⟩ := not_or.mp skip
        obtain ⟨next, rest, cut⟩ := List.exists_cons_of_ne_nil (List.splitOn_ne_nil '/' back)
        have parts := validate_parts back next rest cut
        constructor
        · intro valid _ _ other tail same
          obtain ⟨rfl, rfl⟩ := List.cons.inj (cut.symm.trans same)
          exact (parts.mp (valid _ _ rfl)).2
        · intro leads bucket tail same
          cases same
          refine parts.mpr ⟨?_, leads (not_not.mp known) ?_ next rest cut⟩
          · rw [← cut]
            exact fun part member => body part (List.mem_cons_of_mem _ member)
          · intro empty
            have joined : ['/'].intercalate (back.splitOn '/') = back := List.intercalate_splitOn '/'
            rw [empty] at joined
            exact filled joined.symm
  constructor
  · rintro ⟨⟨body, leads⟩, ⟨fits, free⟩, rest⟩
    exact ⟨body, leads, fits, free, (backend body).mp rest⟩
  · rintro ⟨body, leads, fits, free, rest⟩
    exact ⟨⟨body, leads⟩, ⟨fits, free⟩, (backend body).mpr rest⟩

/-! Normalised paths. -/

def solidParts (path : Text) : List Text := (path.splitOn '/').filter solid

theorem solidParts_slash (first second : Text) :
    solidParts (first ++ '/' :: second) = solidParts first ++ solidParts second := by
  unfold solidParts
  rw [List.splitOn_append_cons_self, List.filter_append]

theorem normalise_join (dir name : Text) (relative : name.head? ≠ some '/') :
    normalise (join dir name) = ((normalise dir).1, (normalise dir).2 ++ solidParts name) := by
  unfold join
  rw [if_neg relative]
  by_cases bare : dir = [] ∨ dir.getLast? = some '/'
  · rw [if_pos bare]
    cases bare with
    | inl empty =>
      subst empty
      change (decide (name.head? = some '/'), solidParts name) = (false, [] ++ solidParts name)
      rw [decide_eq_false relative, List.nil_append]
    | inr slash =>
      obtain ⟨front, rfl⟩ := List.getLast?_eq_some_iff.mp slash
      have closed : solidParts (front ++ ['/']) = solidParts front := by
        rw [solidParts_slash]
        exact List.append_nil _
      change (decide ((front ++ ['/'] ++ name).head? = some '/'), solidParts (front ++ ['/'] ++ name)) =
        (decide ((front ++ ['/']).head? = some '/'), solidParts (front ++ ['/']) ++ solidParts name)
      rw [closed, head_append _ name (List.append_ne_nil_of_right_ne_nil _ (List.cons_ne_nil _ _)), List.append_assoc,
        List.singleton_append, solidParts_slash]
  · rw [if_neg bare]
    change (decide ((dir ++ '/' :: name).head? = some '/'), solidParts (dir ++ '/' :: name)) =
      (decide (dir.head? = some '/'), solidParts dir ++ solidParts name)
    rw [head_append _ _ (not_or.mp bare).1, solidParts_slash]

/-! Each kind of file has its own names at the top level. -/

/-- The kind of the files whose first component is `first`. -/
def kindOf (first : Text) : Kind :=
  if isMetaStoreName first then .metadata
  else if tmpPrefix.isPrefixOf first then .temp
  else if segPrefix.isPrefixOf first then .segment
  else if segpartPrefix.isPrefixOf first then .part
  else if segmetaPrefix.isPrefixOf first then .marker
  else .object

theorem escapeKey_flat (key : Text) : '/' ∉ escapeKey key := by
  rw [escapeKey_eq]
  intro member
  obtain ⟨c, -, inside⟩ := List.mem_flatMap.mp member
  unfold escapeChar at inside
  split_ifs at inside with percent slash
  · exact absurd inside (by decide)
  · exact absurd inside (by decide)
  · exact slash (List.mem_singleton.mp inside).symm

theorem rangeText_flat (start stop : Nat) : '/' ∉ rangeText start stop := by
  have digits (n : Nat) : '/' ∉ numeral n := not_mem_numeral n '/' (by decide)
  simp [rangeText, digits]

theorem digitChar_ne_slash (n : Nat) : Nat.digitChar (n % 16) ≠ '/' := by
  have each : ∀ m, m < 16 → Nat.digitChar m ≠ '/' := by decide
  exact each _ (Nat.mod_lt n (by decide))

theorem tmpName_flat (key : Text) (rand : BitVec 32) : '/' ∉ tmpName key rand := by
  have opening : '/' ∉ tmpPrefix := by decide
  have flat : '/' ∉ replaceChar '/' ['_'] key := by
    intro member
    obtain ⟨c, -, inside⟩ := List.mem_flatMap.mp member
    by_cases slash : c = '/'
    · rw [if_pos slash] at inside
      exact absurd inside (by decide)
    · rw [if_neg slash] at inside
      exact slash (List.mem_singleton.mp inside).symm
  have word : '/' ∉ hexWord rand := by
    intro member
    obtain ⟨i, -, digit⟩ := List.mem_map.mp member
    exact digitChar_ne_slash _ digit
  simp [tmpName, opening, flat, word]

/-- The files that are not objects have one component each, or belong to the store. -/
theorem flat_parts (name : Text) (flat : '/' ∉ name) (long : 2 < name.length) :
    solidParts name = [name] ∧ dotDot ∉ solidParts name := by
  have single : solidParts name = [name] := by
    have filled : solid name = true := by
      have some_ : name ≠ [] := by
        rintro rfl
        exact absurd long (by decide)
      have dot : name ≠ ['.'] := by
        rintro rfl
        exact absurd long (by decide)
      simp [solid, some_, dot]
    rw [solidParts, List.splitOn_eq_singleton flat, List.filter_cons, if_pos filled, List.filter_nil]
  refine ⟨single, ?_⟩
  rw [single, List.mem_singleton]
  rintro rfl
  exact absurd long (by decide)

theorem kindOf_front (front rest : Text) (kind : Kind)
    (named : (front, kind) ∈ [(tmpPrefix, Kind.temp), (segPrefix, .segment), (segpartPrefix, .part), (segmetaPrefix, .marker),
      (metaStoreFile, .metadata)]) : kindOf (front ++ rest) = kind := by
  simp only [List.mem_cons, Prod.mk.injEq, List.not_mem_nil, or_false] at named
  rcases named with ⟨rfl, rfl⟩ | ⟨rfl, rfl⟩ | ⟨rfl, rfl⟩ | ⟨rfl, rfl⟩ | ⟨rfl, rfl⟩ <;>
    simp [kindOf, isMetaStoreName, metaStoreFile, tmpPrefix, segPrefix, segpartPrefix, segmetaPrefix, List.isPrefixOf]

/-- A name that the layout does not reserve belongs to the objects. -/
theorem kindOf_object (first : Text) (dot : first.head? ≠ some '.') (store : isMetaStoreName first = false) :
    kindOf first = .object := by
  have none_ (front : Text) (dotted : front.head? = some '.') : front.isPrefixOf first = false := by
    apply Bool.eq_false_iff.mpr
    intro opens
    obtain ⟨rest, rfl⟩ := List.isPrefixOf_iff_prefix.mp opens
    rw [head_append front rest (by rintro rfl; cases dotted)] at dot
    exact dot dotted
  unfold kindOf
  simp only [store, none_ tmpPrefix rfl, none_ segPrefix rfl, none_ segpartPrefix rfl, none_ segmetaPrefix rfl,
    Bool.false_eq_true, if_false]

theorem solid_first (first : Text) (leads : Leads first) (dot : first.head? ≠ some '.') : solid first = true := by
  have other : first ≠ ['.'] := by
    rintro rfl
    exact dot rfl
  simp [solid, leads.1, other]

section Layout
variable (routes : RouteTable) (buckets : List Text)

/-- The key that the artifact is of, if it is of one, is the key of some request. -/
def Known (artifact : Artifact) : Prop := ∀ key, artifact.key? = some key → Resolves routes buckets key

theorem split_first (key : Text) : ∃ first later, key.splitOn '/' = first :: later :=
  List.exists_cons_of_ne_nil (List.splitOn_ne_nil '/' key)

theorem resolved_parts (key : Text) (resolved : Resolves routes buckets key) : ∃ first later,
    key.splitOn '/' = first :: later ∧ Accepted buckets first later ∧ solidParts key = first :: later.filter solid ∧
      dotDot ∉ solidParts key ∧ key.head? ≠ some '/' := by
  obtain ⟨first, later, split⟩ := split_first key
  have accepted := (resolves_parts routes buckets key first later split).mp resolved
  have body : Body key := (body_parts key).mpr (by rw [split]; exact accepted.body)
  obtain ⟨decoded, read, -⟩ := body.decodes
  refine ⟨first, later, split, accepted, ?_, ?_, ?_⟩
  · rw [solidParts, split, List.filter_cons, if_pos (solid_first first accepted.leads accepted.free.1)]
  · exact fun member => (body.parts dotDot (List.mem_filter.mp member).1).1 rfl
  · exact ((leads_iff key first later split ⟨decoded, read⟩).mp accepted.leads).2.1

theorem flat_kind (front rest : Text) (kind : Kind) (flat : '/' ∉ front ++ rest) (long : 2 < front.length)
    (named : (front, kind) ∈ [(tmpPrefix, Kind.temp), (segPrefix, .segment), (segpartPrefix, .part), (segmetaPrefix, .marker),
      (metaStoreFile, .metadata)]) :
    (∃ first later, solidParts (front ++ rest) = first :: later ∧ kindOf first = kind) ∧
      (front ++ rest).head? ≠ some '/' ∧ dotDot ∉ solidParts (front ++ rest) := by
  have longer : 2 < (front ++ rest).length := by
    rw [List.length_append]
    omega
  obtain ⟨single, dots⟩ := flat_parts (front ++ rest) flat longer
  exact ⟨⟨front ++ rest, [], single, kindOf_front front rest kind named⟩, head_free _ flat, dots⟩

/-- The first component of a file tells its kind, and no file climbs out. -/
theorem layout (artifact : Artifact) (known : Known routes buckets artifact) :
    (∃ first later, solidParts artifact.name = first :: later ∧ kindOf first = artifact.kind) ∧
      artifact.name.head? ≠ some '/' ∧ (artifact.key?.isSome → dotDot ∉ solidParts artifact.name) := by
  cases artifact with
  | object key =>
    obtain ⟨first, later, -, accepted, parts, dots, head⟩ := resolved_parts routes buckets key (known key rfl)
    exact ⟨⟨first, _, parts, kindOf_object first accepted.free.1 accepted.free.2⟩, head, fun _ => dots⟩
  | temp key rand =>
    obtain ⟨named, head, dots⟩ := flat_kind tmpPrefix _ .temp (tmpName_flat key rand) (by decide) (by simp)
    exact ⟨named, head, fun _ => dots⟩
  | segment key start stop =>
    have flat : '/' ∉ segPath key start stop := by
      simp [segPath, segPrefix, escapeKey_flat, rangeText_flat]
    obtain ⟨named, head, dots⟩ := flat_kind segPrefix _ .segment flat (by decide) (by simp)
    exact ⟨named, head, fun _ => dots⟩
  | part key start stop =>
    have flat : '/' ∉ segpartPath key start stop := by
      simp [segpartPath, segpartPrefix, escapeKey_flat, rangeText_flat]
    obtain ⟨named, head, dots⟩ := flat_kind segpartPrefix _ .part flat (by decide) (by simp)
    exact ⟨named, head, fun _ => dots⟩
  | marker key =>
    have flat : '/' ∉ segmetaPath key := by
      simp [segmetaPath, segmetaPrefix, escapeKey_flat]
    obtain ⟨named, head, dots⟩ := flat_kind segmetaPrefix _ .marker flat (by decide) (by simp)
    exact ⟨named, head, fun _ => dots⟩
  | metadata suffix =>
    refine ⟨?_, (by intro slash; cases slash), (by intro owner; cases owner)⟩
    have front : '/' ∉ metaStoreFile := by decide
    rcases splitOn_cases suffix with ⟨free, -⟩ | ⟨opening, rest, rfl, free, -⟩
    · exact (flat_kind metaStoreFile suffix .metadata (by simp [front, free]) (by decide) (by simp)).1
    · obtain ⟨first, later, parts, kind⟩ :=
        (flat_kind metaStoreFile opening .metadata (by simp [front, free]) (by decide) (by simp)).1
      refine ⟨first, later ++ solidParts rest, ?_, kind⟩
      change solidParts (metaStoreFile ++ (opening ++ '/' :: rest)) = _
      rw [← List.append_assoc, solidParts_slash, parts, List.cons_append]

theorem normalise_path (dir : Text) (artifact : Artifact) (known : Known routes buckets artifact) :
    normalise (artifact.path dir) = ((normalise dir).1, (normalise dir).2 ++ solidParts artifact.name) :=
  normalise_join dir artifact.name (layout routes buckets artifact known).2.1

theorem path_separate (dir : Text) (one two : Artifact) (first : Known routes buckets one) (second : Known routes buckets two)
    (kinds : one.kind ≠ two.kind) : normalise (one.path dir) ≠ normalise (two.path dir) := by
  rw [normalise_path routes buckets dir one first, normalise_path routes buckets dir two second]
  intro same
  have names := List.append_cancel_left (Prod.mk.inj same).2
  obtain ⟨⟨opening, later, parts, kind⟩, -⟩ := layout routes buckets one first
  obtain ⟨⟨other, rest, parts', kind'⟩, -⟩ := layout routes buckets two second
  rw [parts, parts'] at names
  apply kinds
  rw [← kind, ← kind', (List.cons.inj names).1]

theorem path_inside (dir : Text) (artifact : Artifact) (known : Known routes buckets artifact) (key : Text)
    (owner : artifact.key? = some key) : ∃ rest, rest ≠ [] ∧ dotDot ∉ rest ∧
      normalise (artifact.path dir) = ((normalise dir).1, (normalise dir).2 ++ rest) := by
  obtain ⟨⟨first, later, parts, -⟩, -, dots⟩ := layout routes buckets artifact known
  refine ⟨solidParts artifact.name, ?_, dots (by rw [owner]; rfl), normalise_path routes buckets dir artifact known⟩
  rw [parts]
  exact List.cons_ne_nil _ _

end Layout

/-! Other spellings of a path. -/

theorem weight_filter (parts : List Text) :
    parts.filter solid = parts ∨ weight (parts.filter solid) + 3 ≤ weight parts := by
  induction parts with
  | nil => exact .inl rfl
  | cons part parts ih =>
    rw [List.filter_cons]
    by_cases kept : solid part = true
    · rw [if_pos kept]
      cases ih with
      | inl same => exact .inl (by rw [same])
      | inr lighter =>
        right
        change 3 + partSize part + weight (parts.filter solid) + 3 ≤ 3 + partSize part + weight parts
        omega
    · rw [if_neg kept]
      right
      change weight (parts.filter solid) + 3 ≤ 3 + partSize part + weight parts
      cases ih with
      | inl same =>
        rw [same]
        omega
      | inr lighter => omega

theorem filter_of_solid (parts : List Text) (plain : ∀ part ∈ parts, solid part = true) : parts.filter solid = parts :=
  List.filter_eq_self.mpr plain

/-- Dropping a component that is empty or a dot leaves the path where it leads. -/
theorem filter_drop (front back : List Text) (part : Text) (bare : solid part = false) :
    (front ++ part :: back).filter solid = (front ++ back).filter solid := by
  rw [List.filter_append, List.filter_append, List.filter_cons, if_neg (by rw [bare]; exact Bool.false_ne_true)]

theorem drop_ne (front back : List Text) (part : Text) : front ++ part :: back ≠ front ++ back := by
  intro same
  have lengths := congrArg List.length same
  simp only [List.length_append, List.length_cons] at lengths
  omega

section Spellings
variable (buckets : List Text) (first : Text)

/-- The components after the first that lead to the same file. -/
structure Spelling (later other : List Text) : Prop where
  accepted : Accepted buckets first other
  flat : ∀ part ∈ other, '/' ∉ part
  same : other.filter solid = later.filter solid
  different : other ≠ later

theorem spelling_drop (front back : List Text) (part : Text) (accepted : Accepted buckets first (front ++ part :: back))
    (flat : ∀ x ∈ front ++ part :: back, '/' ∉ x) (bare : solid part = false)
    (backend : first ∈ buckets → front ++ back ≠ [[]] → ∀ next rest, front ++ back = next :: rest → Leads next) :
    Spelling buckets first (front ++ part :: back) (front ++ back) := by
  have sub (x : Text) (member : x ∈ front ++ back) : x ∈ front ++ part :: back := by
    cases List.mem_append.mp member with
    | inl here => exact List.mem_append_left _ here
    | inr there => exact List.mem_append_right _ (List.mem_cons_of_mem _ there)
  constructor
  · constructor
    · intro x member
      cases List.mem_cons.mp member with
      | inl head => exact accepted.body x (head ▸ List.mem_cons_self)
      | inr tail => exact accepted.body x (List.mem_cons_of_mem _ (sub x tail))
    · exact accepted.leads
    · have fits := accepted.fits
      have whole : weight (front ++ part :: back) = weight front + (3 + partSize part + weight back) :=
        weight_append front (part :: back)
      rw [weight_append]
      omega
    · exact accepted.free
    · exact backend
  · exact fun x member => flat x (sub x member)
  · exact (filter_drop front back part bare).symm
  · exact fun same => drop_ne front back part same.symm

theorem body_blank : Body [] := by
  constructor
  · exact List.not_mem_nil
  · exact List.not_mem_nil
  · exact ⟨[], rfl, List.not_mem_nil, List.not_mem_nil, by decide⟩
  · decide

/-- A path with room for one more slash has another spelling. -/
theorem spelling_short (later : List Text) (accepted : Accepted buckets first later) (flat : ∀ x ∈ later, '/' ∉ x)
    (short : partSize first + weight later ≤ 252) : ∃ other, Spelling buckets first later other := by
  by_cases closed : later = [[]]
  · subst closed
    refine ⟨[], spelling_drop buckets first [] [] [] accepted flat (by decide) ?_⟩
    intro _ _ next rest same
    cases same
  · refine ⟨later ++ [[]], ?_, ?_, ?_, ?_⟩
    · constructor
      · intro x member
        cases List.mem_cons.mp member with
        | inl head => exact accepted.body x (head ▸ List.mem_cons_self)
        | inr tail =>
          cases List.mem_append.mp tail with
          | inl here => exact accepted.body x (List.mem_cons_of_mem _ here)
          | inr there =>
            rw [List.mem_singleton.mp there]
            exact body_blank
      · exact accepted.leads
      · have slash : weight [[]] = 3 := by decide
        have limit : nameMaxBytes = 255 := rfl
        rw [weight_append, slash, limit]
        omega
      · exact accepted.free
      · intro known open_ next rest same
        cases later with
        | nil => exact absurd rfl open_
        | cons head tail =>
          obtain ⟨rfl, -⟩ := List.cons.inj same
          exact accepted.backend known closed head tail rfl
    · intro x member
      cases List.mem_append.mp member with
      | inl here => exact flat x here
      | inr there =>
        rw [List.mem_singleton.mp there]
        exact List.not_mem_nil
    · rw [List.filter_append]
      exact List.append_nil _
    · intro same
      have lengths := congrArg List.length same
      simp at lengths

/-- A component after the second one can go: what the bucket rule reads stays. -/
theorem spelling_later (second : Text) (front back : List Text) (part : Text)
    (accepted : Accepted buckets first (second :: front ++ part :: back)) (flat : ∀ x ∈ second :: front ++ part :: back, '/' ∉ x)
    (bare : solid part = false) :
    Spelling buckets first (second :: front ++ part :: back) (second :: front ++ back) := by
  refine spelling_drop buckets first (second :: front) back part accepted flat bare ?_
  intro known _ next rest same
  obtain ⟨rfl, -⟩ := List.cons.inj same
  refine accepted.backend known ?_ second _ rfl
  intro short
  have lengths := congrArg List.length short
  simp at lengths

/-- The dot between a bucket and a name that decodes to an absolute one cannot go. -/
def Propped (later : List Text) : Prop := first ∈ buckets ∧ ∃ next rest, later = ['.'] :: next :: rest ∧
  (∀ part ∈ next :: rest, solid part = true) ∧ ∃ decoded, Decodes next ('/' :: decoded)

theorem bare_split (parts : List Text) (bare : ¬ ∀ part ∈ parts, solid part = true) :
    ∃ front part back, parts = front ++ part :: back ∧ solid part = false := by
  obtain ⟨part, member, hollow⟩ : ∃ part ∈ parts, solid part ≠ true := by simpa using bare
  obtain ⟨front, back, split⟩ := List.append_of_mem member
  exact ⟨front, part, back, split, Bool.eq_false_iff.mpr hollow⟩

theorem not_leads (next : Text) (filled : next ≠ []) (other : ¬ Leads next) : ∃ decoded, Decodes next ('/' :: decoded) := by
  obtain ⟨decoded, read, slash⟩ : ∃ decoded, Decodes next decoded ∧ decoded.head? = some '/' := by
    by_contra none_
    exact other ⟨filled, fun decoded read slash => none_ ⟨decoded, read, slash⟩⟩
  cases decoded with
  | nil => cases slash
  | cons c decoded =>
    obtain rfl := Option.some.inj slash
    exact ⟨decoded, read⟩

theorem spelling_bare (later : List Text) (accepted : Accepted buckets first later) (flat : ∀ x ∈ later, '/' ∉ x)
    (bare : ¬ ∀ part ∈ later, solid part = true) (straight : ¬ Propped buckets first later) :
    ∃ other, Spelling buckets first later other := by
  obtain ⟨front, part, back, rfl, hollow⟩ := bare_split later bare
  cases front with
  | cons second front => exact ⟨_, spelling_later buckets first second front back part accepted flat hollow⟩
  | nil =>
    rw [List.nil_append] at accepted flat straight bare
    cases back with
    | nil =>
      refine ⟨[], spelling_drop buckets first [] [] part accepted flat hollow ?_⟩
      intro _ _ next rest same
      cases same
    | cons next rest =>
      by_cases plain : ∀ x ∈ next :: rest, solid x = true
      · by_cases leads : first ∈ buckets → Leads next
        · refine ⟨next :: rest, spelling_drop buckets first [] (next :: rest) part accepted flat hollow ?_⟩
          intro known _ head tail same
          obtain ⟨rfl, -⟩ := List.cons.inj same
          exact leads known
        · obtain ⟨known, other⟩ := Classical.not_imp.mp leads
          have opening : Leads part := accepted.backend known (by simp) part _ rfl
          have dot : part = ['.'] := by
            have either : ¬ (part ≠ [] ∧ part ≠ ['.']) := by simpa [solid] using hollow
            exact not_not.mp fun distinct => either ⟨opening.1, distinct⟩
          have filled : next ≠ [] := by
            have kept := plain next List.mem_cons_self
            rintro rfl
            exact absurd kept (by decide)
          exact absurd ⟨known, next, rest, by rw [dot], plain, not_leads next filled other⟩ straight
      · obtain ⟨front, x, tail, split, gone⟩ := bare_split (next :: rest) plain
        rw [split] at accepted flat ⊢
        exact ⟨_, spelling_later buckets first part front tail x accepted flat gone⟩

theorem unspelled_plain (later other : List Text) (long : 252 < partSize first + weight later)
    (plain : ∀ part ∈ later, solid part = true) : ¬ Spelling buckets first later other := by
  intro spelling
  have limit : nameMaxBytes = 255 := rfl
  have fits := spelling.accepted.fits
  have same := spelling.same
  rw [filter_of_solid later plain] at same
  cases weight_filter other with
  | inl whole => exact spelling.different (whole.symm.trans same)
  | inr lighter =>
    rw [same] at lighter
    omega

theorem unspelled_propped (later other : List Text) (long : 252 < partSize first + weight later)
    (propped : Propped buckets first later) : ¬ Spelling buckets first later other := by
  intro spelling
  obtain ⟨known, next, rest, rfl, plain, decoded, read⟩ := propped
  have limit : nameMaxBytes = 255 := rfl
  have fits := spelling.accepted.fits
  have same : other.filter solid = next :: rest := spelling.same.trans (filter_of_solid _ plain)
  cases other with
  | nil => cases same
  | cons opening tail =>
    have leads : Leads opening := by
      refine spelling.accepted.backend known ?_ opening tail rfl
      intro closed
      rw [closed] at same
      cases same
    rw [List.filter_cons] at same
    by_cases kept : solid opening = true
    · rw [if_pos kept] at same
      obtain ⟨rfl, -⟩ := List.cons.inj same
      exact leads.2 _ read rfl
    · rw [if_neg kept] at same
      have dot : opening = ['.'] := by
        have either : ¬ (opening ≠ [] ∧ opening ≠ ['.']) := by simpa [solid] using kept
        exact not_not.mp fun distinct => either ⟨leads.1, distinct⟩
      subst dot
      cases weight_filter tail with
      | inl whole => exact spelling.different (by rw [← whole, same])
      | inr lighter =>
        rw [same] at lighter
        change 252 < partSize first + (3 + partSize ['.'] + weight (next :: rest)) at long
        change partSize first + (3 + partSize ['.'] + weight tail) ≤ nameMaxBytes at fits
        omega

theorem unspelled_iff (later : List Text) (accepted : Accepted buckets first later) (flat : ∀ x ∈ later, '/' ∉ x) :
    (∀ other, ¬ Spelling buckets first later other) ↔ 252 < partSize first + weight later ∧
      ((∀ part ∈ later, solid part = true) ∨ Propped buckets first later) := by
  constructor
  · intro alone
    constructor
    · by_contra short
      obtain ⟨other, spelling⟩ := spelling_short buckets first later accepted flat (Nat.le_of_not_lt short)
      exact alone other spelling
    · by_contra bent
      obtain ⟨bare, straight⟩ := not_or.mp bent
      obtain ⟨other, spelling⟩ := spelling_bare buckets first later accepted flat bare straight
      exact alone other spelling
  · rintro ⟨long, straight⟩ other
    cases straight with
    | inl plain => exact unspelled_plain buckets first later other long plain
    | inr propped => exact unspelled_propped buckets first later other long propped

end Spellings

/-! Names without escapes. -/

theorem decodeBytes_clean (bytes : List UInt8) (clean : ∀ b ∈ bytes, b ≠ 0x25) : decodeBytes bytes = some bytes := by
  induction bytes with
  | nil => rfl
  | cons b bytes ih =>
    obtain ⟨head, tail⟩ := List.forall_mem_cons.mp clean
    rw [decodeBytes_plain b bytes head, ih tail]
    rfl

theorem decodes_clean (text : Text) (clean : '%' ∉ text) : Decodes text text := by
  refine (decodes_iff text text).mpr (decodeBytes_clean _ ?_)
  intro b member
  obtain ⟨c, inside, encoded⟩ := List.mem_flatMap.mp member
  have percent : c ≠ '%' := by
    rintro rfl
    exact clean inside
  by_cases slash : c = '/'
  · subst slash
    rw [encodeChar_ascii '/' (by decide), List.mem_singleton] at encoded
    rw [encoded]
    decide
  · exact (plain_bytes c percent slash b encoded).1

/-- A name of letters. -/
def Lettered (name : Text) : Prop := name ≠ [] ∧ ∀ c ∈ name, c.isAlpha = true

theorem Lettered.free (name : Text) (lettered : Lettered name) (c : Char) (other : c.isAlpha = false) : c ∉ name := by
  intro member
  rw [lettered.2 c member] at other
  cases other

theorem Lettered.body (name : Text) (lettered : Lettered name) : Body name := by
  have flat : '/' ∉ name := lettered.free name '/' (by decide)
  have dots : name ≠ dotDot := by
    rintro rfl
    exact lettered.free dotDot '.' (by decide) (by decide)
  constructor
  · exact lettered.free name '\x00' (by decide)
  · exact lettered.free name '\\' (by decide)
  · refine ⟨name, decodes_clean name (lettered.free name '%' (by decide)), lettered.free name '\x00' (by decide),
      lettered.free name '\\' (by decide), ?_⟩
    rw [List.splitOn_eq_singleton flat, List.mem_singleton]
    exact dots.symm
  · rw [List.splitOn_eq_singleton flat, List.forall_mem_singleton]
    refine ⟨dots, ?_⟩
    intro encoded
    refine lettered.free name '%' (by decide) ?_
    simp only [encodedDotDots, List.mem_cons, List.not_mem_nil, or_false] at encoded
    cases encoded with
    | inl lower => rw [lower]; decide
    | inr upper => rw [upper]; decide

theorem Lettered.leads (name : Text) (lettered : Lettered name) : Leads name := by
  refine ⟨lettered.1, ?_⟩
  intro decoded read
  rw [decodes_unique name decoded name read (decodes_clean name (lettered.free name '%' (by decide)))]
  exact head_free name (lettered.free name '/' (by decide))

/-- A lettered name, then components that are letters or blank, is a key where no bucket is known. -/
theorem lettered_accepted (first : Text) (later : List Text) (lettered : Lettered first)
    (blank : ∀ part ∈ later, part = [] ∨ Lettered part) (fits : partSize first + weight later ≤ nameMaxBytes) :
    Accepted [] first later := by
  constructor
  · rw [List.forall_mem_cons]
    refine ⟨lettered.body, ?_⟩
    intro part member
    cases blank part member with
    | inl empty =>
      rw [empty]
      exact body_blank
    | inr named => exact named.body
  · exact lettered.leads
  · exact fits
  · constructor
    · intro dot
      exact lettered.free first '.' (by decide) (List.mem_of_mem_head? dot)
    · apply Bool.eq_false_iff.mpr
      intro store
      obtain ⟨rest, whole⟩ := List.isPrefixOf_iff_prefix.mp store
      refine lettered.free first '.' (by decide) ?_
      rw [← whole]
      exact List.mem_append_left _ (by decide)
  · intro known
    cases known

theorem partSize_replicate (n : Nat) : partSize (List.replicate n 'a') = n := by
  have letter : partSize ['a'] = 1 := by decide
  induction n with
  | zero => rfl
  | succ n ih =>
    rw [List.replicate_succ, ← List.singleton_append, partSize_append, letter, ih]
    omega

/-! Which keys have their files to themselves. -/

theorem split_injective (key other : Text) (same : key.splitOn '/' = other.splitOn '/') : key = other := by
  have joined (path : Text) : ['/'].intercalate (path.splitOn '/') = path := List.intercalate_splitOn '/'
  rw [← joined key, same, joined other]

theorem split_flat (key : Text) : ∀ part ∈ key.splitOn '/', '/' ∉ part := by
  induction key using split_induction with
  | free part free =>
    rw [List.splitOn_eq_singleton free, List.forall_mem_singleton]
    exact free
  | slash front rest free ih =>
    rw [List.splitOn_append_cons_self_of_not_mem free, List.forall_mem_cons]
    exact ⟨free, ih⟩

section Aliases
variable (routes : RouteTable) (buckets : List Text) (dir : Text)

theorem normalise_file (key : Text) (resolved : Resolves routes buckets key) :
    normalise (filePath dir key) = ((normalise dir).1, (normalise dir).2 ++ solidParts key) := by
  refine normalise_path routes buckets dir (.object key) ?_
  intro other owner
  obtain rfl := Option.some.inj owner
  exact resolved

theorem file_same (key other : Text) (one : Resolves routes buckets key) (two : Resolves routes buckets other) :
    normalise (filePath dir other) = normalise (filePath dir key) ↔ solidParts other = solidParts key := by
  rw [normalise_file routes buckets dir key one, normalise_file routes buckets dir other two]
  constructor
  · exact fun same => List.append_cancel_left (Prod.mk.inj same).2
  · exact fun same => by rw [same]

/-- Keys without empty and dot components never share a file. -/
theorem plain_apart (key other : Text) (one : Resolves routes buckets key) (two : Resolves routes buckets other)
    (plain : ∀ part ∈ key.splitOn '/', solid part = true) (plain' : ∀ part ∈ other.splitOn '/', solid part = true)
    (distinct : other ≠ key) : normalise (filePath dir other) ≠ normalise (filePath dir key) := by
  rw [Ne, file_same routes buckets dir key other one two]
  unfold solidParts
  rw [filter_of_solid _ plain, filter_of_solid _ plain']
  exact fun same => distinct (split_injective other key same)

theorem alone_iff (key first : Text) (later : List Text) (split : key.splitOn '/' = first :: later)
    (resolved : Resolves routes buckets key) :
    (∀ other, Resolves routes buckets other → other ≠ key → normalise (filePath dir other) ≠ normalise (filePath dir key)) ↔
      ∀ other, ¬ Spelling buckets first later other := by
  have accepted := (resolves_parts routes buckets key first later split).mp resolved
  have head : solid first = true := solid_first first accepted.leads accepted.free.1
  have parts : solidParts key = first :: later.filter solid := by
    rw [solidParts, split, List.filter_cons, if_pos head]
  constructor
  · intro alone rest spelling
    have flat : ∀ part ∈ first :: rest, '/' ∉ part := by
      rw [List.forall_mem_cons]
      exact ⟨split_flat key first (by rw [split]; exact List.mem_cons_self), spelling.flat⟩
    have whole : (['/'].intercalate (first :: rest)).splitOn '/' = first :: rest :=
      List.splitOn_intercalate '/' flat (List.cons_ne_nil _ _)
    generalize ['/'].intercalate (first :: rest) = other at whole
    have reached := (resolves_parts routes buckets other first rest whole).mpr spelling.accepted
    refine alone other reached ?_ ?_
    · rintro rfl
      exact spelling.different (List.cons.inj (whole.symm.trans split)).2
    · rw [file_same routes buckets dir key other resolved reached, parts, solidParts, whole, List.filter_cons, if_pos head,
        spelling.same]
  · intro alone other reached distinct same
    rw [file_same routes buckets dir key other resolved reached, parts] at same
    obtain ⟨opening, rest, whole, accepted', parts', -⟩ := resolved_parts routes buckets other reached
    rw [parts'] at same
    obtain ⟨rfl, tails⟩ := List.cons.inj same
    refine alone rest ⟨accepted', ?_, tails, ?_⟩
    · intro part member
      exact split_flat other part (by rw [whole]; exact List.mem_cons_of_mem _ member)
    · rintro rfl
      exact distinct (split_injective other key (whole.trans split.symm))

/-- What a key's files ought to be: no other key's object, no file of another kind, and
under the root of the cache. -/
structure KeptApart (key : Text) : Prop where
  alone : ∀ other, Resolves routes buckets other → other ≠ key → normalise (filePath dir other) ≠ normalise (filePath dir key)
  separate : ∀ one two : Artifact, one.key? = some key → Known routes buckets two → one.kind ≠ two.kind →
    normalise (one.path dir) ≠ normalise (two.path dir)
  inside : ∀ one : Artifact, one.key? = some key → ∃ rest, rest ≠ [] ∧ dotDot ∉ rest ∧
    normalise (one.path dir) = ((normalise dir).1, (normalise dir).2 ++ rest)

/-- No room for one more slash. -/
def Long (key : Text) : Prop := nameMaxBytes < (bytesOf (escapeKey (key ++ ['/']))).length

/-- No component to drop, or only a dot whose place the bucket rule keeps. -/
def Straight (key : Text) : Prop := ∃ first later, key.splitOn '/' = first :: later ∧
  ((∀ part ∈ later, solid part = true) ∨ Propped buckets first later)

theorem kept_apart (key : Text) (resolved : Resolves routes buckets key) :
    KeptApart routes buckets dir key ↔ Long key ∧ Straight buckets key := by
  obtain ⟨first, later, split⟩ := split_first key
  have accepted := (resolves_parts routes buckets key first later split).mp resolved
  have flat : ∀ part ∈ later, '/' ∉ part :=
    fun part member => split_flat key part (by rw [split]; exact List.mem_cons_of_mem _ member)
  have alone := (alone_iff routes buckets dir key first later split resolved).trans
    (unspelled_iff buckets first later accepted flat)
  have long : Long key ↔ 252 < partSize first + weight later := by
    have whole := weight_split key
    rw [split] at whole
    change 3 + partSize first + weight later = partSize key + 3 at whole
    have slash : partSize (key ++ ['/']) = partSize key + 3 := partSize_slash key []
    change 255 < partSize (key ++ ['/']) ↔ _
    omega
  have straight : Straight buckets key ↔ (∀ part ∈ later, solid part = true) ∨ Propped buckets first later := by
    constructor
    · rintro ⟨opening, rest, same, held⟩
      obtain ⟨rfl, rfl⟩ := List.cons.inj (same.symm.trans split)
      exact held
    · exact fun held => ⟨first, later, split, held⟩
  rw [long, straight, ← alone]
  constructor
  · exact fun kept => kept.alone
  · intro lonely
    have known (one : Artifact) (owner : one.key? = some key) : Known routes buckets one := by
      intro other same
      obtain rfl := Option.some.inj (owner.symm.trans same)
      exact resolved
    constructor
    · exact lonely
    · exact fun one two owner other kinds => path_separate routes buckets dir one two (known one owner) other kinds
    · exact fun one owner => path_inside routes buckets dir one (known one owner) key owner

end Aliases

def fullName : Text := List.replicate 253 'a'

theorem fullName_resolves : Resolves defaultRoutes [] fullName ∧ fullName.splitOn '/' = [fullName] := by
  have letters : Lettered fullName := by
    refine ⟨List.cons_ne_nil _ _, ?_⟩
    intro c member
    rw [(List.mem_replicate.mp member).2]
    decide
  have size : partSize fullName = 253 := partSize_replicate 253
  have split : fullName.splitOn '/' = [fullName] := List.splitOn_eq_singleton (letters.free fullName '/' (by decide))
  refine ⟨(resolves_parts _ _ _ fullName [] split).mpr (lettered_accepted fullName [] letters ?_ ?_), split⟩
  · intro part member
    cases member
  · rw [size]
    decide

theorem fullName_apart : KeptApart defaultRoutes [] ['c'] fullName := by
  obtain ⟨resolves, split⟩ := fullName_resolves
  refine (kept_apart defaultRoutes [] ['c'] fullName resolves).mpr ⟨?_, fullName, [], split, .inl ?_⟩
  · have size : partSize (fullName ++ ['/']) = 256 := by
      rw [partSize_append, show partSize fullName = 253 from partSize_replicate 253]
      decide
    change 255 < partSize (fullName ++ ['/'])
    omega
  · intro part member
    cases member

def nested : Text := ['a', '/', 'b']
def doubled : Text := ['a', '/', '/', 'b']

/-- One file for two objects. -/
theorem nested_shared : Resolves defaultRoutes [] nested ∧ Resolves defaultRoutes [] doubled ∧ doubled ≠ nested ∧
    normalise (filePath ['c'] doubled) = normalise (filePath ['c'] nested) ∧ ¬ KeptApart defaultRoutes [] ['c'] nested := by
  have lettered (c : Char) (letter : c.isAlpha = true) : Lettered [c] :=
    ⟨List.cons_ne_nil _ _, by rw [List.forall_mem_singleton]; exact letter⟩
  have one : Resolves defaultRoutes [] nested := by
    refine (resolves_parts _ _ _ ['a'] [['b']] (by decide)).mpr (lettered_accepted _ _ (lettered 'a' (by decide)) ?_ (by decide))
    rw [List.forall_mem_singleton]
    exact .inr (lettered 'b' (by decide))
  have two : Resolves defaultRoutes [] doubled := by
    refine (resolves_parts _ _ _ ['a'] [[], ['b']] (by decide)).mpr
      (lettered_accepted _ _ (lettered 'a' (by decide)) ?_ (by decide))
    rw [List.forall_mem_cons, List.forall_mem_singleton]
    exact ⟨.inl rfl, .inr (lettered 'b' (by decide))⟩
  have distinct : doubled ≠ nested := by decide
  have same : normalise (filePath ['c'] doubled) = normalise (filePath ['c'] nested) := by decide
  exact ⟨one, two, distinct, same, fun kept => kept.alone doubled two distinct same⟩

end OriginCache.Cache.Paths
