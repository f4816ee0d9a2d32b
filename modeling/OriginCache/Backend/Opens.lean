import OriginCache.Backend.Links
import OriginCache.Foundation.Slices
import OriginCache.Request.Ranges
import OriginCache.Request.Sigv4

/-! One open of the upstream: the range that is asked for, as a header, and the length
that is read off the answer. The upstream can be a node too, which reads the range at
the other end. -/

namespace OriginCache.Backend.Opens
open Foundation.Words Foundation.Splits Foundation.Slices
open Foundation.Percent (fromUtf8Lossy)
open Cache.SegName (Text parseU64 parseU64_numeral)
open Cache.Serving (BackendError ContentRange forSpan)
open Request.Canonical (isWhitespace)
open Request.Sigv4 (trim)
open Request.Ranges
open Links (OpenListBackend davPath)

/-- `ByteRange::http_header_value`. -/
def httpHeaderValue (range : ByteRange) : Calc Text :=
  match range.length with
  | none => pure ("bytes=".toList ++ numeral range.offset.toNat ++ ['-'])
  | some length => do
      let reach ← add range.offset length
      let last ← sub reach 1
      pure ("bytes=".toList ++ numeral range.offset.toNat ++ '-' :: numeral last.toNat)

/-- `ContentRange::header_value`. -/
def headerValue (range : ContentRange) : Text :=
  "bytes".toList ++ ' ' :: numeral range.first ++ '-' :: numeral range.last ++ '/' :: numeral range.total

/-- `ContentRange::unsatisfiable`. -/
def unsatisfiable (total : Nat) : Text := "bytes */".toList ++ numeral total

/-- A header is there when its value is visible text. -/
structure Answer where
  status : Nat
  contentLength : Option Text
  contentRange : Option Text
  retryAfter : Option Text
  body : List UInt8
deriving DecidableEq, Repr

structure StreamSource where
  stream : List UInt8
  promisedLen : Option UInt64
deriving DecidableEq, Repr

def mapStatusWith (status : Nat) (body : Text) (retryAfterMillis : Option Nat) : BackendError :=
  if status = 404 then .notFound
  else if status = 429 then .rateLimited retryAfterMillis
  else if status = 401 ∨ status = 403 then .authRequired
  else if 500 ≤ status ∧ status ≤ 599 then .serverError (numeral status ++ ": ".toList ++ body)
  else .other (numeral status ++ ": ".toList ++ body)

/-- The form in seconds only; a date is passed over. -/
def retryAfterMillis (answer : Answer) : Option Nat :=
  (answer.retryAfter.bind fun raw => parseU64 (trim raw)).map fun secs => min (secs * 1000) (2 ^ 64 - 1)

/-- The positions of a `Content-Range`. -/
def spanOf (value : Text) : Option (Nat × Nat) :=
  (rsplitOnce '/' value).bind fun (span, _) =>
    (splitOnce ' ' span).bind fun (_, range) =>
      (splitOnce '-' range).bind fun (first, last) =>
        (parseU64 (trim first)).bind fun first => (parseU64 (trim last)).map fun last => (first, last)

/-- The total of a `Content-Range` is no length of the answer. -/
def promisedLen (answer : Answer) : Calc (Option UInt64) :=
  match answer.contentLength.bind parseU64 with
  | some length => pure (some (UInt64.ofNat length))
  | none =>
      match answer.contentRange.bind spanOf with
      | some (first, last) => do
          let length ← add (UInt64.ofNat (last - first)) 1
          pure (some length)
      | none => pure none

def readAnswer : Except Text Answer → Calc (Except BackendError StreamSource)
  | .error text => pure (.error (.serverError ("dav get: ".toList ++ text)))
  | .ok answer =>
      if answer.status = 200 ∨ answer.status = 206 then do
        let length ← promisedLen answer
        pure (.ok ⟨answer.body, length⟩)
      else pure (.error (mapStatusWith answer.status (fromUtf8Lossy answer.body) (retryAfterMillis answer)))

/-- `OpenListBackend::open`. What is at the other end may count in words itself. -/
def opens (backend : OpenListBackend) (key : Text) (send : Text → Option Text → Calc (Except Text Answer))
    (range : Option ByteRange) : Calc (Except BackendError StreamSource) := do
  let asked ← match range with
    | none => pure none
    | some range => do
        let value ← httpHeaderValue range
        pure (some value)
  let answer ← send (backend.baseUrl ++ davPath backend.rootPath key) asked
  readAnswer answer

/-! The other end. -/

section Nodes
variable (readHeader : Text → Except Refusal ParsedRanges) (object refusal : List UInt8) (always dropped : Bool)

/-- A GET of an object that the node can stream. Some profiles show the range of every
answer, and a proxy between the nodes can drop the length. -/
def nodeAnswer (asked : Option Text) : Calc Answer := do
  match ← getSpan (asked.map readHeader) (UInt64.ofNat object.length) with
  | .error _ => pure ⟨416, none, some (unsatisfiable object.length), none, refusal⟩
  | .ok (start, stop) =>
      let shown := forSpan object.length start.toNat stop.toNat (asked.isSome || always)
      let length := stop.toNat - start.toNat
      pure ⟨if shown.isSome then 206 else 200, if dropped then none else some (numeral length), shown.map headerValue,
        none, slice object start.toNat length⟩

/-- The range header parser reads the two plain forms as they are meant. -/
structure PlainReads : Prop where
  pair : ∀ first last : UInt64, readHeader ("bytes=".toList ++ numeral first.toNat ++ '-' :: numeral last.toNat) =
    .ok ⟨⟨.index first, .index last⟩, []⟩
  tail : ∀ first : UInt64, readHeader ("bytes=".toList ++ numeral first.toNat ++ ['-']) =
    .ok ⟨⟨.index first, .lastByte⟩, []⟩

/-- A range that ends in words and is not empty. -/
def Proper (range : ByteRange) : Prop :=
  ∀ length, range.length = some length → 0 < length.toNat ∧ range.offset.toNat + length.toNat < 2 ^ 64

/-- How much of the object a range names. -/
def reach (range : ByteRange) : Nat :=
  range.length.elim (object.length - range.offset.toNat) fun length => min length.toNat (object.length - range.offset.toNat)

theorem reach_inside (range : ByteRange) (proper : Proper range) (inside : range.offset.toNat < object.length) :
    0 < reach object range ∧ range.offset.toNat + reach object range =
      range.length.elim object.length fun length => min (range.offset.toNat + length.toNat) object.length := by
  unfold reach
  cases bound : range.length with
  | none =>
    simp only [Option.elim_none]
    omega
  | some length =>
    have filled := (proper length bound).1
    simp only [Option.elim_some]
    omega

/-! Texts that are read back. -/

theorem digit_solid (c : Char) (digit : c.isDigit = true) : isWhitespace c = false := by
  obtain ⟨low, high⟩ := Char.isDigit_iff_toNat.mp digit
  change 48 ≤ c.toNat at low
  change c.toNat ≤ 57 at high
  simp only [isWhitespace, List.mem_cons, List.not_mem_nil, or_false, decide_eq_false_iff_not]
  omega

theorem dropWhile_solid (text : Text) (solid : ∀ c ∈ text, isWhitespace c = false) :
    text.dropWhile isWhitespace = text := by
  cases text with
  | nil => rfl
  | cons c rest =>
    apply List.dropWhile_cons_of_neg
    rw [solid c List.mem_cons_self]
    exact Bool.false_ne_true

theorem trim_numeral (n : Nat) : trim (numeral n) = numeral n := by
  have solid : ∀ c ∈ numeral n, isWhitespace c = false := fun c member => digit_solid c (numeral_isDigit n c member)
  rw [trim, dropWhile_solid _ solid, dropWhile_solid _ fun c member => solid c (List.mem_reverse.mp member),
    List.reverse_reverse]

theorem spanOf_headerValue (range : ContentRange) (low : range.first < 2 ^ 64) (high : range.last < 2 ^ 64) :
    spanOf (headerValue range) = some (range.first, range.last) := by
  have slash := not_mem_numeral range.total '/' (by decide)
  have hyphen := not_mem_numeral range.first '-' (by decide)
  have blank : ' ' ∉ "bytes".toList := by decide
  unfold spanOf headerValue
  rw [rsplitOnce_append '/' _ _ slash, Option.bind_some]
  simp only [List.append_assoc, List.cons_append, splitOnce_append ' ' _ _ blank, Option.bind_some,
    splitOnce_append '-' _ _ hyphen, trim_numeral, parseU64_numeral _ low, parseU64_numeral _ high, Option.map_some]

theorem httpHeaderValue_bounded (offset length : UInt64) (filled : 0 < length.toNat)
    (fits : offset.toNat + length.toNat < 2 ^ 64) : ∃ last : UInt64,
      httpHeaderValue (.bounded offset length) =
        pure ("bytes=".toList ++ numeral offset.toNat ++ '-' :: numeral last.toNat) ∧
      last.toNat = offset.toNat + length.toNat - 1 := by
  have sum := toNat_add offset length fits
  have one : (1 : UInt64).toNat = 1 := rfl
  have below : (1 : UInt64).toNat ≤ (add offset length).value.toNat := by omega
  refine ⟨(sub (add offset length).value 1).value, ?_, ?_⟩
  · change (add offset length >>= fun reach => sub reach 1 >>= fun last => pure _) = _
    rw [bind_of_exact _ _ ((exact_add _ _).mpr fits), bind_of_exact _ _ ((exact_sub _ _).mpr below)]
    rfl
  · rw [toNat_sub _ _ below, sum, one]

variable {readHeader}

/-- What is asked for is what the other end reads. -/
theorem asked_read (reads : PlainReads readHeader) (range : ByteRange) (proper : Proper range) :
    ∃ value, httpHeaderValue range = pure value ∧ parse (some (readHeader value)) = pure (.ok (.single range)) := by
  obtain ⟨offset, length⟩ := range
  cases length with
  | none =>
    refine ⟨_, rfl, ?_⟩
    rw [reads.tail]
    rfl
  | some length =>
    obtain ⟨filled, fits⟩ := proper length rfl
    obtain ⟨last, written, reach⟩ := httpHeaderValue_bounded offset length filled fits
    obtain ⟨found, read, same⟩ := parse_pair offset last (by omega) (by have := length.toNat_lt; omega)
    refine ⟨_, written, ?_⟩
    have equal : found = length := UInt64.toNat_inj.mp (by omega)
    rw [reads.pair]
    rw [equal] at read
    exact read

theorem getSpan_read (value : Text) (range : ByteRange) (size : UInt64)
    (read : parse (some (readHeader value)) = pure (.ok (.single range))) :
    getSpan ((some value).map readHeader) size = resolveByteRange (some range) size := by
  rw [Option.map_some, getSpan, read, pure_bind]

theorem toNat_word (n : Nat) (fits : n < 2 ^ 64) : (UInt64.ofNat n).toNat = n := by
  rw [UInt64.toNat_ofNat']
  exact Nat.mod_eq_of_lt fits

theorem nodeAnswer_outside (fits : object.length < 2 ^ 64) (value : Text) (range : ByteRange)
    (read : parse (some (readHeader value)) = pure (.ok (.single range))) (outside : object.length ≤ range.offset.toNat) :
    nodeAnswer readHeader object refusal always dropped (some value) =
      pure ⟨416, none, some (unsatisfiable object.length), none, refusal⟩ := by
  have behind : UInt64.ofNat object.length ≤ range.offset := by
    rw [UInt64.le_iff_toNat_le, toNat_word object.length fits]
    exact outside
  have refused : resolveByteRange (some range) (UInt64.ofNat object.length) = pure (.error .unsatisfiable) :=
    resolveByteRange_outside range _ behind
  rw [nodeAnswer, getSpan_read value range _ read, refused, pure_bind]

theorem nodeAnswer_inside (fits : object.length < 2 ^ 64) (value : Text) (range : ByteRange) (proper : Proper range)
    (read : parse (some (readHeader value)) = pure (.ok (.single range))) (inside : range.offset.toNat < object.length) :
    nodeAnswer readHeader object refusal always dropped (some value) =
      pure ⟨206, if dropped then none else some (numeral (reach object range)),
        some (headerValue ⟨range.offset.toNat, range.offset.toNat + reach object range - 1, object.length⟩), none,
        slice object range.offset.toNat (reach object range)⟩ := by
  have size := toNat_word object.length fits
  obtain ⟨stop, resolved, last⟩ := resolveByteRange_inside range (UInt64.ofNat object.length) (by rw [size]; exact inside)
    fun length some_ => (proper length some_).2
  obtain ⟨filled, whole⟩ := reach_inside object range proper inside
  have ends : stop.toNat = range.offset.toNat + reach object range := by rw [last, size, whole]
  have length : stop.toNat - range.offset.toNat = reach object range := by omega
  have shown : forSpan object.length range.offset.toNat stop.toNat true =
      some ⟨range.offset.toNat, range.offset.toNat + reach object range - 1, object.length⟩ := by
    rw [forSpan, if_pos ⟨rfl, by omega⟩, ends]
  rw [nodeAnswer, getSpan_read value range _ read, resolved, pure_bind]
  simp only [Option.isSome_some, Bool.true_or, shown, length, if_true, Option.map_some]

/-- Either header tells the length of the answer. -/
theorem promisedLen_shown (first count total : Nat) (body : List UInt8) (filled : 0 < count) (fits : first + count ≤ 2 ^ 64 - 1) :
    promisedLen ⟨206, if dropped then none else some (numeral count), some (headerValue ⟨first, first + count - 1, total⟩),
      none, body⟩ = pure (some (UInt64.ofNat count)) := by
  cases dropped with
  | false =>
    have told : parseU64 (numeral count) = some count := parseU64_numeral count (by omega)
    simp only [promisedLen, Bool.false_eq_true, if_false, Option.bind_some, told]
  | true =>
    have told := spanOf_headerValue ⟨first, first + count - 1, total⟩ (by simp only; omega) (by simp only; omega)
    have distance : (UInt64.ofNat (first + count - 1 - first)).toNat = count - 1 := by
      rw [toNat_word _ (by omega)]
      omega
    have one : (1 : UInt64).toNat = 1 := rfl
    have small : (UInt64.ofNat (first + count - 1 - first)).toNat + (1 : UInt64).toNat < 2 ^ 64 := by omega
    have sum : (add (UInt64.ofNat (first + count - 1 - first)) 1).value = UInt64.ofNat count := by
      apply UInt64.toNat_inj.mp
      rw [toNat_add _ _ small, distance, one, toNat_word count (by omega)]
      omega
    simp only [promisedLen, if_true, Option.bind_none, Option.bind_some, told]
    rw [bind_of_exact _ _ ((exact_add _ _).mpr small), sum]

end Nodes

def readPlain (value : Text) : Except Refusal ParsedRanges :=
  match (stripPrefix "bytes=".toList value).bind (splitOnce '-') with
  | none => .error .malformed
  | some (first, last) =>
      match parseU64 first, parseU64 last with
      | some start, some stop => .ok ⟨⟨.index (.ofNat start), .index (.ofNat stop)⟩, []⟩
      | some start, none => if last = [] then .ok ⟨⟨.index (.ofNat start), .lastByte⟩, []⟩ else .error .malformed
      | none, _ => .error .malformed

theorem plainReads_readPlain : PlainReads readPlain := by
  have number (n : UInt64) : parseU64 (numeral n.toNat) = some n.toNat := parseU64_numeral _ n.toNat_lt
  have hyphen (n : UInt64) := not_mem_numeral n.toNat '-' (by decide)
  have empty : parseU64 [] = none := by decide
  constructor
  · intro first last
    rw [readPlain, List.append_assoc, stripPrefix_append, Option.bind_some, splitOnce_append '-' _ _ (hyphen first)]
    simp only [number, UInt64.ofNat_toNat]
  · intro first
    rw [readPlain, List.append_assoc, stripPrefix_append, Option.bind_some, splitOnce_append '-' _ _ (hyphen first)]
    simp only [number, empty, if_true, UInt64.ofNat_toNat]

def nextNode : OpenListBackend := ⟨"http://n".toList, none, none⟩

end OriginCache.Backend.Opens
