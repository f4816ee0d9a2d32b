import Mathlib.Data.List.Sort
import OriginCache.Cache.SegName

/-! Which raw request paths become cache keys. Validation is syntactic; the two
capacity rules are the ones the cache directory's file names impose. -/

namespace OriginCache.Cache.Key
open Foundation.Splits SegName

inductive KeyError
  | empty | absolute | traversal | nul | backslash | badPercent | reservedName | tooLong
deriving DecidableEq, Repr

def KeyError.message : KeyError → String
  | .empty => "empty key"
  | .absolute => "absolute path not allowed"
  | .traversal => "path traversal"
  | .nul => "contains NUL byte"
  | .backslash => "contains backslash"
  | .badPercent => "invalid percent encoding"
  | .reservedName => "reserved name"
  | .tooLong => "key too long for a cache filename"

@[grind =] def decodeBytes : List UInt8 → Option (List UInt8)
  | [] => some []
  | b :: rest =>
      if b = 0x25 then
        match rest with
        | hi :: lo :: tail => do
            let high ← hexVal hi
            let low ← hexVal lo
            let out ← decodeBytes tail
            some (UInt8.ofNat (16 * high + low) :: out)
        | _ => none
      else (decodeBytes rest).map (b :: ·)

/-- `String::from_utf8`. -/
def fromUtf8 (bytes : List UInt8) : Option Text :=
  (ByteArray.mk bytes.toArray).utf8Decode?.map Array.toList

def percentDecode (text : Text) : Except KeyError Text :=
  match (decodeBytes (bytesOf text)).bind fromUtf8 with
  | some out => .ok out
  | none => .error .badPercent

def dotDot : Text := ['.', '.']
def encodedDotDots : List Text := [['%', '2', 'e', '%', '2', 'e'], ['%', '2', 'E', '%', '2', 'E']]

def validateKey (raw : Text) : Except KeyError Text := do
  if raw = [] then throw .empty
  if '\x00' ∈ raw then throw .nul
  if '\\' ∈ raw then throw .backslash
  if raw.head? = some '/' then throw .absolute
  let decoded ← percentDecode raw
  if '\x00' ∈ decoded then throw .nul
  if '\\' ∈ decoded then throw .backslash
  if decoded.head? = some '/' then throw .absolute
  if dotDot ∈ decoded.splitOn '/' then throw .traversal
  if (raw.splitOn '/').any (fun seg => seg = dotDot ∨ seg ∈ encodedDotDots) then throw .traversal
  return raw

/-! What the layout of the cache directory adds. -/

def metaStoreFile : Text := ['r', 'e', 'd', 'b', '.', 'd', 'b']
def nameMaxBytes : Nat := 255

def isMetaStoreName (name : Text) : Bool := metaStoreFile.isPrefixOf name

/-- Only the first path segment is reserved. -/
def isReservedKey (key : Text) : Bool :=
  let first := (key.splitOn '/').headD []
  first.head? = some '.' ∨ isMetaStoreName first

inductive Unstorable
  | tooLong | reserved
deriving DecidableEq, Repr

def storable (raw cacheKey : Text) : Except Unstorable Unit := do
  if nameMaxBytes < (bytesOf (escapeKey raw)).length then throw .tooLong
  if isReservedKey cacheKey then throw .reserved
  return ()

def rejectUnstorable (raw cacheKey : Text) : Except KeyError Unit :=
  match storable raw cacheKey with
  | .ok _ => .ok ()
  | .error .tooLong => .error .tooLong
  | .error .reserved => .error .reservedName

structure RouteRule where
  front : Text
  upstream : Text
deriving DecidableEq, Repr

/-- Longest prefix first. An empty table is refused by configuration. -/
structure RouteTable where
  rules : List RouteRule
  filled : rules ≠ []

/-- A stable sort by descending prefix length. -/
def sortRules (rules : List RouteRule) : List RouteRule :=
  rules.insertionSort fun a b => (bytesOf b.front).length ≤ (bytesOf a.front).length

theorem sortRules_ne_nil (rules : List RouteRule) (filled : rules ≠ []) : sortRules rules ≠ [] := by
  intro empty
  have same := List.perm_insertionSort (fun a b : RouteRule =>
    (bytesOf b.front).length ≤ (bytesOf a.front).length) rules
  rw [sortRules] at empty
  rw [empty] at same
  exact filled same.symm.eq_nil

def RouteTable.new (rules : List RouteRule) (filled : rules ≠ []) : RouteTable :=
  ⟨sortRules rules, sortRules_ne_nil rules filled⟩

def RouteTable.resolve (table : RouteTable) (key : Text) : Text :=
  match table.rules.find? fun r => r.front = [] ∨ r.front.isPrefixOf key with
  | some r => r.upstream
  | none => (table.rules.head table.filled).upstream

structure ResolvedKey where
  cacheKey : Text
  backendKey : Text
  upstreamId : Text
deriving DecidableEq, Repr

def splitBucket (path : Text) (ids : List Text) : Option (Text × Text) := do
  let (first, rest) ← splitOnce '/' path
  if rest = [] ∨ first ∉ ids then none else some (first, rest)

def resolveKey (rawPath : Text) (routes : RouteTable) (buckets : List Text) :
    Except KeyError ResolvedKey :=
  match splitBucket rawPath buckets with
  | some (bucket, rest) => do
      let cacheKey ← validateKey rawPath
      rejectUnstorable rawPath cacheKey
      let backendKey ← validateKey rest
      return ⟨cacheKey, backendKey, bucket⟩
  | none => do
      let cacheKey ← validateKey rawPath
      rejectUnstorable rawPath cacheKey
      return ⟨cacheKey, cacheKey, routes.resolve cacheKey⟩

/-- The one-rule table that sends every key to `primary`. -/
def defaultRoutes : RouteTable :=
  .new [⟨[], ['p', 'r', 'i', 'm', 'a', 'r', 'y']⟩] (by decide)

/-! What an accepted path is known to satisfy. -/

theorem bytes_toByteArray (text : Text) : ByteArray.mk (bytesOf text).toArray = text.utf8Encode :=
  (@List.data_toByteArray (text.flatMap String.utf8EncodeChar)).symm ▸ rfl

/-- Bytes are read as the one text that they encode. -/
theorem fromUtf8_iff (bytes : List UInt8) (text : Text) : fromUtf8 bytes = some text ↔ bytes = bytesOf text := by
  constructor
  · intro read
    obtain ⟨chars, decoded, rfl⟩ := Option.map_eq_some_iff.mp read
    have whole := @ByteArray.utf8Encode_get_utf8Decode? (ByteArray.mk bytes.toArray) (by rw [decoded]; rfl)
    simp only [decoded, Option.get_some] at whole
    rw [← bytes_toByteArray] at whole
    simpa using (congrArg (fun b : ByteArray => b.data.toList) whole).symm
  · rintro rfl
    rw [fromUtf8, bytes_toByteArray, List.utf8Decode?_utf8Encode]
    rfl

theorem validateKey_ok (raw key : Text) (ok : validateKey raw = .ok key) : key = raw := by
  simp only [validateKey, bind, Except.bind, pure, Except.pure, throw, throwThe,
    MonadExceptOf.throw] at ok
  repeat' split at ok
  all_goals simp_all

theorem validateKey_ne_nil (raw key : Text) (ok : validateKey raw = .ok key) : raw ≠ [] := by
  rintro rfl
  have refused : validateKey [] = .error .empty := rfl
  rw [refused] at ok
  cases ok

/-- A resolved key is its own raw path, and the directory can store it. -/
theorem resolveKey_ok (raw : Text) (routes : RouteTable) (buckets : List Text)
    (resolved : ResolvedKey) (ok : resolveKey raw routes buckets = .ok resolved) :
    resolved.cacheKey = raw ∧ raw ≠ [] ∧ rejectUnstorable raw raw = .ok () := by
  have settled : ∃ cacheKey, validateKey raw = .ok cacheKey ∧
      rejectUnstorable raw cacheKey = .ok () ∧ resolved.cacheKey = cacheKey := by
    simp only [resolveKey, bind, Except.bind, pure, Except.pure] at ok
    repeat' split at ok
    all_goals simp_all
    all_goals subst ok; exact ⟨rfl, by assumption⟩
  obtain ⟨cacheKey, valid, stored, named⟩ := settled
  have same := validateKey_ok raw cacheKey valid
  exact ⟨named.trans same, validateKey_ne_nil raw cacheKey valid, same ▸ stored⟩

end OriginCache.Cache.Key
