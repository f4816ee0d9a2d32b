import Mathlib.Data.List.TakeWhile
import OriginCache.Request.Sigv4

/-! Which hosts may be spoken to in plain http, and the two policies that ask: the one
for an upstream's base URL and the one for the target of a redirect. -/

namespace OriginCache.Request.Hosts
open Foundation.Splits
open Cache.SegName (Text)
open Sigv4 (trim)

inductive IpAddr
  | v4 (bits : BitVec 32)
  | v6 (bits : BitVec 128)
deriving DecidableEq, Repr

/-- `Ipv6Addr::to_ipv4_mapped`. -/
def toIpv4Mapped (bits : BitVec 128) : Option (BitVec 32) :=
  if bits >>> 32 = 0xFFFF then some (bits.setWidth 32) else none

/-- Only 127.0.0.0/8. -/
def isLoopbackV4 (bits : BitVec 32) : Bool := bits >>> 24 = 127

/-- `::1`, and the mapped form of a loopback address. -/
def isLoopbackV6 (bits : BitVec 128) : Bool := bits = 1 ∨ (toIpv4Mapped bits).any isLoopbackV4

def IpAddr.isLoopback : IpAddr → Bool
  | .v4 bits => isLoopbackV4 bits
  | .v6 bits => isLoopbackV6 bits

/-! `IpAddr::from_str`. A reader takes a part off the front, or fails. -/

abbrev Reader (α : Type) := Text → Option (α × Text)

def digitValue (c : Char) : Option Nat :=
  if '0' ≤ c ∧ c ≤ '9' then some (c.toNat - 48)
  else if 'a' ≤ c ∧ c ≤ 'f' then some (c.toNat - 87)
  else if 'A' ≤ c ∧ c ≤ 'F' then some (c.toNat - 55)
  else none

def toDigit (radix : Nat) (c : Char) : Option Nat := (digitValue c).filter (· < radix)

def readNumber (radix maxDigits limit : Nat) (leadingZero : Bool) : Reader Nat := fun text =>
  let isDigit := fun c => (toDigit radix c).isSome
  let digits := text.takeWhile isDigit
  let value := digits.foldl (fun n c => n * radix + (toDigit radix c).getD 0) 0
  if digits = [] ∨ maxDigits < digits.length ∨ limit ≤ value then none
  else if leadingZero = false ∧ digits.head? = some '0' ∧ 1 < digits.length then none
  else some (value, text.dropWhile isDigit)

def readGivenChar (given : Char) : Reader Unit := fun text =>
  if text.head? = some given then some ((), text.tail) else none

/-- The separator stands before every part but the first. -/
def readSeparator {α : Type} (sep : Char) (index : Nat) (inner : Reader α) : Reader α := fun text =>
  if index = 0 then inner text else (readGivenChar sep text).bind fun read => inner read.2

def readOctet : Reader Nat := readNumber 10 3 256 false

def readIpv4 : Reader (BitVec 32) := fun text => do
  let (a, rest) ← readSeparator '.' 0 readOctet text
  let (b, rest) ← readSeparator '.' 1 readOctet rest
  let (c, rest) ← readSeparator '.' 2 readOctet rest
  let (d, rest) ← readSeparator '.' 3 readOctet rest
  some (BitVec.ofNat 32 (((a * 256 + b) * 256 + c) * 256 + d), rest)

def readGroup : Reader Nat := readNumber 16 4 65536 true

/-- Up to `room` groups behind `index` others, and whether a dotted address closed them. -/
def readGroups : Nat → Nat → Text → (List Nat × Bool) × Text
  | 0, _, text => (([], false), text)
  | room + 1, index, text =>
      match if 0 < room then readSeparator ':' index readIpv4 text else none with
      | some (bits, rest) => (([bits.toNat / 65536, bits.toNat % 65536], true), rest)
      | none =>
          match readSeparator ':' index readGroup text with
          | none => (([], false), text)
          | some (group, rest) =>
              let more := readGroups room (index + 1) rest
              ((group :: more.1.1, more.1.2), more.2)

def ofGroups (groups : List Nat) : BitVec 128 := BitVec.ofNat 128 (groups.foldl (fun n g => n * 65536 + g) 0)

/-- A `::` stands for one zero group or more. -/
def readIpv6 : Reader (BitVec 128) := fun text =>
  let head := readGroups 8 0 text
  let groups := head.1.1
  if groups.length = 8 then some (ofGroups groups, head.2)
  else if head.1.2 then none
  else do
    let (_, rest) ← readGivenChar ':' head.2
    let (_, rest) ← readGivenChar ':' rest
    let tail := readGroups (8 - (groups.length + 1)) 0 rest
    let zeros := List.replicate (8 - groups.length - tail.1.1.length) 0
    some (ofGroups (groups ++ zeros ++ tail.1.1), tail.2)

def readIpAddr : Reader IpAddr := fun text =>
  match readIpv4 text with
  | some (bits, rest) => some (.v4 bits, rest)
  | none => (readIpv6 text).map fun read => (.v6 read.1, read.2)

def IpAddr.parse (text : Text) : Option IpAddr :=
  (readIpAddr text).bind fun read => if read.2 = [] then some read.1 else none

/-! Hosts. -/

def trimBrackets (text : Text) : Text :=
  let bracket := fun c => decide (c = '[' ∨ c = ']')
  ((text.dropWhile bracket).reverse.dropWhile bracket).reverse

def localhost : Text := ['l', 'o', 'c', 'a', 'l', 'h', 'o', 's', 't']

/-- A bare host, without port and userinfo. -/
def isLoopbackHost (host : Text) : Bool :=
  let h := trimBrackets (trim host)
  if h = [] then false
  else
    let lower := h.map Char.toLower
    if lower = localhost ∨ ('.' :: localhost) <:+ lower then true
    else
      match IpAddr.parse h with
      | some ip => ip.isLoopback
      | none => false

/-- What stands before the first occurrence of the separator, or everything. -/
def before (sep : Char) (text : Text) : Text := ((splitOnce sep text).map Prod.fst).getD text

/-- The host of an authority: a bracketed literal, or what stands before the port. -/
def hostOf (authority : Text) : Text :=
  match stripPrefix ['['] authority with
  | some stripped => before ']' stripped
  | none => before ':' authority

/-- `str::split_once("://")`. -/
def splitScheme : Text → Option (Text × Text)
  | [] => none
  | c :: rest =>
      if [':', '/', '/'].isPrefixOf (c :: rest) then some ([], (c :: rest).drop 3)
      else (splitScheme rest).map fun parts => (c :: parts.1, parts.2)

def http : Text := ['h', 't', 't', 'p']
def https : Text := ['h', 't', 't', 'p', 's']

inductive UrlFault
  | notAbsolute | cleartext (host : Text) | scheme
deriving DecidableEq, Repr

def UrlFault.message (upstreamId : Text) (fault : UrlFault) : Text :=
  "upstream ".toList ++ upstreamId ++
    match fault with
    | .notAbsolute => ": base_url must be an absolute http(s) URL".toList
    | .cleartext host =>
        ": base_url is http on a non-loopback host (".toList ++ host ++
          ") — credentials would travel in cleartext; use https".toList
    | .scheme => ": base_url scheme must be http (loopback only) or https".toList

def upstreamUrlPolicy (baseUrl : Text) : Except UrlFault Unit :=
  match splitScheme baseUrl with
  | none => .error .notAbsolute
  | some (scheme, rest) =>
      let host := hostOf (before '/' rest)
      if scheme = https then .ok ()
      else if scheme = http then if isLoopbackHost host then .ok () else .error (.cleartext host)
      else .error .scheme

/-- Whether a viewer may be sent there. -/
def redirectTargetAllowed (url : Text) : Bool :=
  match splitScheme url with
  | none => false
  | some (scheme, rest) =>
      let secure := scheme.map Char.toLower = https
      let plain := scheme.map Char.toLower = http
      let authority := before '/' rest
      if ¬ secure ∧ ¬ plain then false
      else if authority = [] ∨ '@' ∈ authority then false
      else if secure then true
      else isLoopbackHost (hostOf authority)

/-! What a reader consumes. -/

def addressChar (c : Char) : Bool := (digitValue c).isSome || c = '.' || c = ':'

/-- A reader takes address characters off the front and leaves the rest. -/
def Consumes {α : Type} (reader : Reader α) : Prop :=
  ∀ text value rest, reader text = some (value, rest) → ∃ used, text = used ++ rest ∧ used.all addressChar = true

theorem consumes_readNumber (radix maxDigits limit : Nat) (leadingZero : Bool) :
    Consumes (readNumber radix maxDigits limit leadingZero) := by
  intro text value rest read
  unfold readNumber at read
  simp only at read
  split_ifs at read
  cases read
  refine ⟨text.takeWhile fun c => (toDigit radix c).isSome, List.takeWhile_append_dropWhile.symm, ?_⟩
  apply List.all_eq_true.mpr
  intro c member
  have digit := List.mem_takeWhile_imp (p := fun c => (toDigit radix c).isSome) member
  unfold toDigit at digit
  unfold addressChar
  cases value : digitValue c with
  | none =>
    rw [value] at digit
    cases digit
  | some d => rfl

theorem consumes_readGivenChar (given : Char) (address : addressChar given = true) : Consumes (readGivenChar given) := by
  intro text value rest read
  unfold readGivenChar at read
  split_ifs at read with first
  cases read
  refine ⟨[given], (List.cons_head?_tail first).symm, ?_⟩
  rw [List.all_cons, address]
  rfl

theorem Consumes.bind {α β : Type} {first : Reader α} {second : α → Reader β} (one : Consumes first)
    (two : ∀ value, Consumes (second value)) : Consumes fun text => (first text).bind fun read => second read.1 read.2 := by
  intro text value rest read
  obtain ⟨⟨mid, left⟩, opened, closed⟩ := Option.bind_eq_some_iff.mp read
  obtain ⟨used, whole, fine⟩ := one text mid left opened
  obtain ⟨more, remains, good⟩ := two mid left value rest closed
  refine ⟨used ++ more, ?_, ?_⟩
  · rw [whole, remains, List.append_assoc]
  · rw [List.all_append, fine, good]
    rfl

theorem consumes_some {α : Type} (value : α) : Consumes fun text => some (value, text) := by
  intro text found rest read
  cases read
  exact ⟨[], rfl, rfl⟩

theorem consumes_readSeparator {α : Type} (sep : Char) (index : Nat) {inner : Reader α}
    (address : addressChar sep = true) (reads : Consumes inner) : Consumes (readSeparator sep index inner) := by
  unfold readSeparator
  split_ifs
  · exact reads
  · exact (consumes_readGivenChar sep address).bind fun _ => reads

theorem consumes_readIpv4 : Consumes readIpv4 := by
  have octet : ∀ index, Consumes (readSeparator '.' index readOctet) := fun index =>
    consumes_readSeparator '.' index (by decide) (consumes_readNumber 10 3 256 false)
  exact (octet 0).bind fun a => (octet 1).bind fun b => (octet 2).bind fun c => (octet 3).bind fun d =>
    consumes_some (BitVec.ofNat 32 (((a * 256 + b) * 256 + c) * 256 + d))

/-- What the groups leave, they leave behind address characters. -/
theorem readGroups_consumes (room index : Nat) (text : Text) :
    ∃ used, text = used ++ (readGroups room index text).2 ∧ used.all addressChar = true := by
  induction room generalizing index text with
  | zero => exact ⟨[], rfl, rfl⟩
  | succ room ih =>
    have colon : addressChar ':' = true := by decide
    unfold readGroups
    split
    · next bits rest dotted =>
      split_ifs at dotted
      exact consumes_readSeparator ':' index colon consumes_readIpv4 text bits rest dotted
    · split
      · exact ⟨[], rfl, rfl⟩
      · next group rest read =>
        obtain ⟨used, whole, fine⟩ :=
          consumes_readSeparator ':' index colon (consumes_readNumber 16 4 65536 true) text group rest read
        obtain ⟨more, remains, good⟩ := ih (index + 1) rest
        refine ⟨used ++ more, ?_, ?_⟩
        · rw [whole, List.append_assoc, ← remains]
        · rw [List.all_append, fine, good]
          rfl

theorem consumes_readIpv6 : Consumes readIpv6 := by
  intro text bits rest read
  have colon : Consumes (readGivenChar ':') := consumes_readGivenChar ':' (by decide)
  obtain ⟨used, whole, fine⟩ := readGroups_consumes 8 0 text
  unfold readIpv6 at read
  simp only at read
  split_ifs at read
  · cases read
    exact ⟨used, whole, fine⟩
  · obtain ⟨⟨_, first⟩, one, read⟩ := Option.bind_eq_some_iff.mp read
    obtain ⟨⟨_, second⟩, two, read⟩ := Option.bind_eq_some_iff.mp read
    cases read
    obtain ⟨more, remains, good⟩ := colon _ _ _ one
    obtain ⟨again, left, better⟩ := colon _ _ _ two
    obtain ⟨last, gone, best⟩ :=
      readGroups_consumes (8 - ((readGroups 8 0 text).1.1.length + 1)) 0 second
    refine ⟨used ++ (more ++ (again ++ last)), ?_, ?_⟩
    · rw [List.append_assoc, List.append_assoc, List.append_assoc, ← gone, ← left, ← remains]
      exact whole
    · simp only [List.all_append, fine, good, better, best, Bool.and_self]

/-- An address is written in hexadecimal digits, dots and colons. -/
theorem parse_chars (text : Text) (ip : IpAddr) (parsed : IpAddr.parse text = some ip) :
    text.all addressChar = true := by
  have whole : ∃ value, readIpAddr text = some (value, []) := by
    obtain ⟨⟨value, rest⟩, read, done⟩ := Option.bind_eq_some_iff.mp parsed
    simp only at done
    split_ifs at done with empty
    subst empty
    exact ⟨value, read⟩
  obtain ⟨value, read⟩ := whole
  have consumed : ∃ used, text = used ++ [] ∧ used.all addressChar = true := by
    unfold readIpAddr at read
    split at read
    · next bits rest v4 =>
      cases read
      exact consumes_readIpv4 text bits [] v4
    · obtain ⟨⟨bits, rest⟩, v6, same⟩ := Option.map_eq_some_iff.mp read
      cases same
      exact consumes_readIpv6 text bits [] v6
  obtain ⟨used, same, fine⟩ := consumed
  rw [List.append_nil] at same
  rw [same]
  exact fine

/-! What plain http may reach. -/

/-- `localhost` or a name under it, in any case. -/
def LocalName (name : Text) : Prop :=
  name.map Char.toLower = localhost ∨ ∃ labels, name.map Char.toLower = labels ++ '.' :: localhost

/-- The literal of a loopback address. -/
def LocalLiteral (literal : Text) : Prop :=
  ∃ ip, IpAddr.parse literal = some ip ∧ ip.isLoopback = true ∧ literal.all addressChar = true

/-- A host that plain http may be spoken to. -/
def LocalHost (host : Text) : Prop :=
  LocalName (trimBrackets (trim host)) ∨ LocalLiteral (trimBrackets (trim host))

theorem not_localName_nil : ¬ LocalName [] := by
  rintro (exactly | ⟨labels, whole⟩)
  · cases exactly
  · cases labels <;> cases whole

theorem not_localLiteral_nil : ¬ LocalLiteral [] := by
  rintro ⟨ip, parsed, _⟩
  have unread : IpAddr.parse [] = none := by decide
  rw [unread] at parsed
  cases parsed

theorem localName_iff (name : Text) : LocalName name ↔
    name.map Char.toLower = localhost ∨ ('.' :: localhost) <:+ name.map Char.toLower := by
  apply or_congr_right
  exact ⟨fun ⟨labels, whole⟩ => ⟨labels, whole.symm⟩, fun ⟨labels, whole⟩ => ⟨labels, whole.symm⟩⟩

theorem isLoopbackHost_iff (host : Text) : isLoopbackHost host = true ↔ LocalHost host := by
  unfold isLoopbackHost LocalHost
  generalize trimBrackets (trim host) = bare
  simp only
  split_ifs with empty name
  · subst empty
    simp only [not_localName_nil, not_localLiteral_nil, or_self]
  · rw [← localName_iff] at name
    simp only [name, true_or]
  · rw [← localName_iff] at name
    rw [or_iff_right name]
    cases parsed : IpAddr.parse bare with
    | none => simp only [LocalLiteral, parsed, Bool.false_eq_true, reduceCtorEq, false_and, exists_false]
    | some ip =>
      simp only [LocalLiteral, parsed, Option.some.injEq, parse_chars bare ip parsed, and_true, exists_eq_left']

theorem redirectTargetAllowed_iff (url scheme rest : Text) (parts : splitScheme url = some (scheme, rest)) :
    redirectTargetAllowed url = true ↔ before '/' rest ≠ [] ∧ '@' ∉ before '/' rest ∧
      (scheme.map Char.toLower = https ∨ scheme.map Char.toLower = http ∧ LocalHost (hostOf (before '/' rest))) := by
  unfold redirectTargetAllowed
  rw [parts]
  simp only
  split_ifs with neither bad secure
  · simp only [false_iff]
    rintro ⟨_, _, either | ⟨either, _⟩⟩
    · exact neither.1 either
    · exact neither.2 either
  · simp only [false_iff]
    rintro ⟨filled, plain, _⟩
    exact bad.elim filled plain
  · rw [not_or] at bad
    simp only [true_iff]
    exact ⟨bad.1, bad.2, .inl secure⟩
  · rw [not_or] at bad
    have plain : scheme.map Char.toLower = http := by tauto
    rw [isLoopbackHost_iff, and_iff_right bad.1, and_iff_right bad.2, or_iff_right secure, and_iff_right plain]

theorem upstreamUrlPolicy_iff (url scheme rest : Text) (parts : splitScheme url = some (scheme, rest)) :
    upstreamUrlPolicy url = .ok () ↔
      scheme = https ∨ scheme = http ∧ LocalHost (hostOf (before '/' rest)) := by
  unfold upstreamUrlPolicy
  rw [parts]
  simp only
  split_ifs with secure plain loops
  · simp only [secure, true_or]
  · simp only [← isLoopbackHost_iff, plain, loops, and_self, or_true]
  · simp only [← isLoopbackHost_iff, secure, loops, Bool.false_eq_true, and_false, or_self]
  · simp only [secure, plain, false_and, or_self]

/-- Both policies speak plain http to local hosts only, and on a URL with a lower-case
scheme and a host without userinfo they answer alike. -/
theorem policies_agree (url scheme rest : Text) (parts : splitScheme url = some (scheme, rest)) :
    (redirectTargetAllowed url = true → scheme.map Char.toLower = https ∨ LocalHost (hostOf (before '/' rest))) ∧
      (upstreamUrlPolicy url = .ok () → scheme = https ∨ LocalHost (hostOf (before '/' rest))) ∧
      (scheme.map Char.toLower = scheme → before '/' rest ≠ [] → '@' ∉ before '/' rest →
        (redirectTargetAllowed url = true ↔ upstreamUrlPolicy url = .ok ())) := by
  rw [redirectTargetAllowed_iff url scheme rest parts, upstreamUrlPolicy_iff url scheme rest parts]
  refine ⟨?_, ?_, ?_⟩
  · rintro ⟨_, _, answer⟩
    exact answer.imp_right And.right
  · intro answer
    exact answer.imp_right And.right
  · intro lower filled plain
    rw [lower, and_iff_right filled, and_iff_right plain]

theorem policies_agree_openlist : redirectTargetAllowed "http://127.0.0.1:5244/dav".toList = true ∧
    upstreamUrlPolicy "http://127.0.0.1:5244/dav".toList = .ok () := by
  have parts : splitScheme "http://127.0.0.1:5244/dav".toList = some (http, "127.0.0.1:5244/dav".toList) := by decide
  have agree := (policies_agree "http://127.0.0.1:5244/dav".toList http "127.0.0.1:5244/dav".toList parts).2.2
    (by decide) (by decide) (by decide)
  have accepted : upstreamUrlPolicy "http://127.0.0.1:5244/dav".toList = .ok () := by decide
  exact ⟨agree.mpr accepted, accepted⟩

end OriginCache.Request.Hosts
