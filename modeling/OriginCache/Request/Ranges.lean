import OriginCache.Foundation.Words

/-! The client's `Range` header: what was asked for and, once the object's size is
known, which bytes that is. The header's own syntax is read elsewhere and may
carry any 64-bit bounds. -/

namespace OriginCache.Request.Ranges
open Foundation.Words

structure ByteRange where
  offset : UInt64
  length : Option UInt64
deriving DecidableEq, Repr

def ByteRange.fromOffset (offset : UInt64) : ByteRange := ⟨offset, none⟩

def ByteRange.bounded (offset length : UInt64) : ByteRange := ⟨offset, some length⟩

inductive StartPosition
  | index (position : UInt64) | fromLast (count : UInt64)
deriving DecidableEq, Repr

inductive EndPosition
  | index (position : UInt64) | lastByte
deriving DecidableEq, Repr

/-- One range as the header spells it. -/
structure SyntacticRange where
  start : StartPosition
  stop : EndPosition
deriving DecidableEq, Repr

/-- A header that could be read names at least one range. -/
structure ParsedRanges where
  first : SyntacticRange
  rest : List SyntacticRange
deriving DecidableEq, Repr

inductive ClientRange
  | absent | single (range : ByteRange) | suffix (count : UInt64) | multi
deriving DecidableEq, Repr

inductive Refusal
  | malformed | unsatisfiable
deriving DecidableEq, Repr

/-- `parse`, over what the header parser made of the header, if there was one. -/
def parse (header : Option (Except Refusal ParsedRanges)) : Calc (Except Refusal ClientRange) :=
  match header with
  | none => pure (.ok .absent)
  | some (.error _) => pure (.error .malformed)
  | some (.ok ranges) =>
      if ranges.rest ≠ [] then pure (.ok .multi)
      else
        match ranges.first with
        | ⟨.fromLast n, _⟩ => pure (.ok (.suffix n))
        | ⟨.index s, .lastByte⟩ => pure (.ok (.single (.fromOffset s)))
        | ⟨.index s, .index e⟩ =>
            if e < s then pure (.error .malformed)
            else do
              let distance ← sub e s
              let length ← add distance 1
              pure (.ok (.single (.bounded s length)))

inductive RequestedSpan
  | whole | span (offset len : UInt64) | unsatisfiable
deriving DecidableEq, Repr

def resolve (parsed : ClientRange) (size : UInt64) : Calc RequestedSpan :=
  match parsed with
  | .absent => pure .whole
  | .multi => pure .unsatisfiable
  | .suffix n =>
      if size = 0 ∨ n = 0 then pure .unsatisfiable
      else do
        let offset ← sub size (min n size)
        pure (.span offset (min n size))
  | .single r =>
      if size ≤ r.offset then pure .unsatisfiable
      else do
        let stop ←
          match r.length with
          | none => pure size
          | some l => do
              let reach ← add r.offset l
              pure (min reach size)
        let len ← sub stop r.offset
        pure (.span r.offset len)

/-- The answer of the serve path: the span as `[start, stop)`, or a 416. -/
abbrev Bounds := Except Refusal (UInt64 × UInt64)

/-- A resolved span as bounds. -/
def bounds (size : UInt64) : RequestedSpan → Calc Bounds
  | .whole => pure (.ok (0, size))
  | .span offset len => do
      let stop ← add offset len
      pure (.ok (offset, stop))
  | .unsatisfiable => pure (.error .unsatisfiable)

def resolveByteRange (range : Option ByteRange) (total : UInt64) : Calc Bounds := do
  let span ← resolve (match range with | none => .absent | some r => .single r) total
  bounds total span

/-- `HEAD`: every form in one step. -/
def headSpan (header : Option (Except Refusal ParsedRanges)) (size : UInt64) : Calc Bounds := do
  match ← parse header with
  | .error _ => pure (.error .unsatisfiable)
  | .ok .multi => pure (.error .unsatisfiable)
  | .ok parsed => do
      let span ← resolve parsed size
      bounds size span

/-- `GET`: a suffix first becomes a bounded range, which the serve path resolves
like any other. -/
def getSpan (header : Option (Except Refusal ParsedRanges)) (size : UInt64) : Calc Bounds := do
  match ← parse header with
  | .error _ => pure (.error .unsatisfiable)
  | .ok .multi => pure (.error .unsatisfiable)
  | .ok .absent => resolveByteRange none size
  | .ok (.single r) => resolveByteRange (some r) size
  | .ok (.suffix n) => do
      match ← resolve (.suffix n) size with
      | .span offset len => resolveByteRange (some (.bounded offset len)) size
      | _ => pure (.error .unsatisfiable)

/-! What a range asks for, and the inputs on which the code answers it. -/

/-- A header that names one range. -/
def named (range : SyntacticRange) : Option (Except Refusal ParsedRanges) := some (.ok ⟨range, []⟩)

/-- The positions a range names in an object of a given size. -/
def asked (range : SyntacticRange) (size position : Nat) : Prop :=
  match range with
  | ⟨.fromLast n, _⟩ => size - n.toNat ≤ position
  | ⟨.index s, .lastByte⟩ => s.toNat ≤ position
  | ⟨.index s, .index e⟩ => s.toNat ≤ position ∧ position ≤ e.toNat

/-- A refusal of a range that names no byte of the object, or exactly the bytes it
names there. -/
def Intersects (range : SyntacticRange) (size : UInt64) : Bounds → Prop
  | .error _ => ∀ position < size.toNat, ¬ asked range size.toNat position
  | .ok (start, stop) => start < stop ∧ ∀ position,
      (start.toNat ≤ position ∧ position < stop.toNat) ↔
        (position < size.toNat ∧ asked range size.toNat position)

structure Answers (range : SyntacticRange) (size : UInt64) : Prop where
  parsed : (parse (named range)).exact = true
  head : (headSpan (named range) size).exact = true
  get : (getSpan (named range) size).exact = true
  span : Intersects range size (headSpan (named range) size).value
  same : (getSpan (named range) size).value = (headSpan (named range) size).value
  served : ∀ r, (parse (named range)).value = .ok (.single r) →
    (resolveByteRange (some r) size).exact = true ∧
      (resolveByteRange (some r) size).value = (headSpan (named range) size).value

/-- The range's last position is the last word, and the code adds one to it. -/
def wraps (range : SyntacticRange) (size : UInt64) : Prop :=
  match range with
  | ⟨.index s, .index e⟩ => e.toNat = 2 ^ 64 - 1 ∧ (s = 0 ∨ s < size)
  | _ => False

instance (range : SyntacticRange) (size : UInt64) : Decidable (wraps range size) := by
  unfold wraps
  split <;> infer_instance

theorem resolveByteRange_outside (r : ByteRange) (size : UInt64) (outside : size ≤ r.offset) :
    resolveByteRange (some r) size = ⟨.error .unsatisfiable, true⟩ := by
  simp only [resolveByteRange, resolve, if_pos outside]
  rfl

/-- The last part of the way: a span that ends inside the object, as bounds. -/
theorem cut_exact (size offset stop : UInt64) (before : offset.toNat ≤ stop.toNat) :
    (do let len ← sub stop offset
        bounds size (.span offset len)) = (pure (.ok (offset, stop)) : Calc Bounds) := by
  have small : stop.toNat < 2 ^ 64 := stop.toNat_lt
  have len := toNat_sub stop offset before
  have fits : offset.toNat + (sub stop offset).value.toNat < 2 ^ 64 := by omega
  have whole : (add offset (sub stop offset).value).value = stop := by
    apply UInt64.toNat.inj
    rw [toNat_add _ _ fits, len]
    omega
  rw [bind_of_exact _ _ ((exact_sub stop offset).mpr before), bounds,
    bind_of_exact _ _ ((exact_add offset _).mpr fits), whole]

/-- Where the range's end does not wrap, it is cut at the object's. -/
theorem resolveByteRange_inside (r : ByteRange) (size : UInt64) (inside : r.offset.toNat < size.toNat)
    (fits : ∀ l ∈ r.length, r.offset.toNat + l.toNat < 2 ^ 64) :
    ∃ stop : UInt64, resolveByteRange (some r) size = pure (.ok (r.offset, stop)) ∧
      stop.toNat = r.length.elim size.toNat fun l => min (r.offset.toNat + l.toNat) size.toNat := by
  have starts : ¬ size ≤ r.offset := by
    rw [UInt64.le_iff_toNat_le]
    omega
  cases bound : r.length with
  | none =>
    refine ⟨size, ?_, rfl⟩
    simp only [resolveByteRange, resolve, if_neg starts, bound, pure_bind, bind_assoc]
    exact cut_exact size r.offset size (by omega)
  | some l =>
    have small := fits l bound
    have stop : (min (add r.offset l).value size).toNat = min (r.offset.toNat + l.toNat) size.toNat := by
      rw [toNat_min, toNat_add r.offset l small]
    refine ⟨_, ?_, stop⟩
    simp only [resolveByteRange, resolve, if_neg starts, bound, pure_bind, bind_assoc]
    rw [bind_of_exact _ _ ((exact_add r.offset l).mpr small)]
    exact cut_exact size r.offset _ (by omega)

/-- A pair that is in order and whose length is a word. -/
theorem parse_pair (s e : UInt64) (order : s.toNat ≤ e.toNat) (fits : e.toNat - s.toNat + 1 < 2 ^ 64) :
    ∃ length : UInt64, parse (named ⟨.index s, .index e⟩) = pure (.ok (.single (.bounded s length))) ∧
      length.toNat = e.toNat - s.toNat + 1 := by
  have forward : ¬ e < s := by
    rw [UInt64.lt_iff_toNat_lt]
    omega
  have distance := toNat_sub e s order
  have small : (sub e s).value.toNat + (1 : UInt64).toNat < 2 ^ 64 := by
    rw [distance]
    exact fits
  have length := toNat_add (sub e s).value 1 small
  refine ⟨_, ?_, length.trans (by rw [distance]; rfl)⟩
  simp only [parse, named, ne_eq, not_true_eq_false, if_false, if_neg forward]
  rw [bind_of_exact _ _ ((exact_sub e s).mpr order), bind_of_exact _ _ ((exact_add _ 1).mpr small)]

/-- A single range goes the same way through either method. -/
theorem answers_single (range : SyntacticRange) (size : UInt64) (r : ByteRange) (found : Bounds)
    (reads : parse (named range) = pure (.ok (.single r)))
    (resolved : resolveByteRange (some r) size = pure found) (meets : Intersects range size found) :
    Answers range size := by
  have head : headSpan (named range) size = pure found := by
    rw [headSpan, reads, pure_bind]
    exact resolved
  have get : getSpan (named range) size = pure found := by
    rw [getSpan, reads, pure_bind]
    exact resolved
  refine ⟨by rw [reads]; rfl, by rw [head]; rfl, by rw [get]; rfl, by rw [head]; exact meets,
    by rw [head, get], ?_⟩
  intro other same
  rw [reads] at same
  cases same
  rw [resolved, head]
  exact ⟨rfl, rfl⟩

theorem answers_open (s size : UInt64) : Answers ⟨.index s, .lastByte⟩ size := by
  by_cases inside : s.toNat < size.toNat
  · obtain ⟨stop, resolved, last⟩ := resolveByteRange_inside (.fromOffset s) size inside (fun _ no => by cases no)
    apply answers_single _ size (.fromOffset s) _ rfl resolved
    have last : stop.toNat = size.toNat := last
    refine ⟨UInt64.lt_iff_toNat_lt.mpr (by rw [last]; exact inside), fun position => ?_⟩
    simp only [asked, last, ByteRange.fromOffset]
    omega
  · have outside : size ≤ s := UInt64.le_iff_toNat_le.mpr (by omega)
    apply answers_single _ size (.fromOffset s) _ rfl (resolveByteRange_outside (.fromOffset s) size outside)
    intro position within names
    simp only [asked] at names
    omega

theorem answers_refused (range : SyntacticRange) (size : UInt64)
    (head : headSpan (named range) size = pure (.error .unsatisfiable))
    (get : getSpan (named range) size = pure (.error .unsatisfiable))
    (reads : (parse (named range)).exact = true)
    (other : ∀ r, (parse (named range)).value ≠ .ok (.single r))
    (misses : ∀ position < size.toNat, ¬ asked range size.toNat position) : Answers range size := by
  refine ⟨reads, by rw [head]; rfl, by rw [get]; rfl, by rw [head]; exact misses, by rw [head, get], ?_⟩
  intro r same
  exact (other r same).elim

/-- A suffix of some bytes of an object that has some. -/
theorem resolve_suffix (n size : UInt64) (sized : size ≠ 0) (wanted : n ≠ 0) :
    ∃ offset : UInt64, resolve (.suffix n) size = pure (.span offset (min n size)) ∧
      offset.toNat = size.toNat - min n.toNat size.toNat := by
  have len := toNat_min n size
  have below : (min n size).toNat ≤ size.toNat := by omega
  have offset := toNat_sub size (min n size) below
  refine ⟨_, ?_, offset.trans (by rw [len])⟩
  rw [resolve, if_neg (by simp [sized, wanted]), bind_of_exact _ _ ((exact_sub size _).mpr below)]

theorem answers_suffix (n size : UInt64) (stop : EndPosition) : Answers ⟨.fromLast n, stop⟩ size := by
  have reads : parse (named ⟨.fromLast n, stop⟩) = pure (.ok (.suffix n)) := rfl
  have another : ∀ r, (parse (named ⟨.fromLast n, stop⟩)).value ≠ .ok (.single r) :=
    fun r same => by cases same
  by_cases none : size = 0 ∨ n = 0
  · have refused : resolve (.suffix n) size = pure .unsatisfiable := by rw [resolve, if_pos none]
    apply answers_refused ⟨.fromLast n, stop⟩ size _ _ rfl another
    · intro position within names
      simp only [asked] at names
      cases none with
      | inl empty => simp [empty] at within
      | inr zero => simp only [zero, UInt64.toNat_zero] at names; omega
    · simp only [headSpan, reads, pure_bind, refused, bounds]
    · simp only [getSpan, reads, pure_bind, refused]
  · have sized : size ≠ 0 := fun empty => none (Or.inl empty)
    have wanted : n ≠ 0 := fun zero => none (Or.inr zero)
    obtain ⟨offset, resolved, first⟩ := resolve_suffix n size sized wanted
    have len := toNat_min n size
    have small : size.toNat < 2 ^ 64 := size.toNat_lt
    have sizePos : 0 < size.toNat := Nat.pos_of_ne_zero fun zero => sized (UInt64.toNat.inj zero)
    have wantedPos : 0 < n.toNat := Nat.pos_of_ne_zero fun zero => wanted (UInt64.toNat.inj zero)
    have fits : offset.toNat + (min n size).toNat < 2 ^ 64 := by omega
    have whole : (add offset (min n size)).value = size := by
      apply UInt64.toNat.inj
      rw [toNat_add _ _ fits]
      omega
    have head : headSpan (named ⟨.fromLast n, stop⟩) size = pure (.ok (offset, size)) := by
      simp only [headSpan, reads, pure_bind, resolved, bounds]
      rw [bind_of_exact _ _ ((exact_add offset _).mpr fits), whole]
    have get : getSpan (named ⟨.fromLast n, stop⟩) size = pure (.ok (offset, size)) := by
      simp only [getSpan, reads, pure_bind, resolved]
      obtain ⟨last, again, cut⟩ := resolveByteRange_inside (.bounded offset (min n size)) size
        (by change offset.toNat < size.toNat; omega) (fun l found => by cases found; exact fits)
      have same : last = size := by
        apply UInt64.toNat.inj
        rw [cut]
        change min (offset.toNat + (min n size).toNat) size.toNat = size.toNat
        omega
      rw [again, same]
      rfl
    refine ⟨rfl, by rw [head]; rfl, by rw [get]; rfl, ?_, by rw [head, get], ?_⟩
    · rw [head]
      refine ⟨UInt64.lt_iff_toNat_lt.mpr (by omega), fun position => ?_⟩
      simp only [asked]
      omega
    · intro r same
      exact (another r same).elim

theorem answers_pair (s e size : UInt64) (steady : ¬ wraps ⟨.index s, .index e⟩ size) :
    Answers ⟨.index s, .index e⟩ size := by
  have last : e.toNat < 2 ^ 64 := e.toNat_lt
  by_cases order : s.toNat ≤ e.toNat
  · have fits : e.toNat - s.toNat + 1 < 2 ^ 64 := by
      by_cases zero : s = 0
      · have below : e.toNat ≠ 2 ^ 64 - 1 := fun top => steady ⟨top, Or.inl zero⟩
        omega
      · have positive : 0 < s.toNat := Nat.pos_of_ne_zero fun none => zero (UInt64.toNat.inj none)
        omega
    obtain ⟨length, reads, count⟩ := parse_pair s e order fits
    by_cases inside : s.toNat < size.toNat
    · have below : e.toNat ≠ 2 ^ 64 - 1 := fun top =>
        steady ⟨top, Or.inr (UInt64.lt_iff_toNat_lt.mpr inside)⟩
      obtain ⟨stop, resolved, cut⟩ := resolveByteRange_inside (.bounded s length) size inside
        (fun l found => by cases found; change s.toNat + length.toNat < 2 ^ 64; omega)
      have cut : stop.toNat = min (s.toNat + length.toNat) size.toNat := cut
      apply answers_single _ size (.bounded s length) _ reads resolved
      refine ⟨UInt64.lt_iff_toNat_lt.mpr (by change s.toNat < stop.toNat; omega), fun position => ?_⟩
      simp only [asked, ByteRange.bounded]
      omega
    · have outside : size ≤ s := UInt64.le_iff_toNat_le.mpr (by omega)
      apply answers_single _ size (.bounded s length) _ reads
        (resolveByteRange_outside (.bounded s length) size outside)
      intro position within names
      simp only [asked] at names
      omega
  · have backward : e < s := UInt64.lt_iff_toNat_lt.mpr (by omega)
    have reads : parse (named ⟨.index s, .index e⟩) = pure (.error .malformed) := by
      simp only [parse, named, ne_eq, not_true_eq_false, if_false, if_pos backward]
    apply answers_refused _ size
    · rw [headSpan, reads, pure_bind]
    · rw [getSpan, reads, pure_bind]
    · rw [reads]; rfl
    · intro r same
      rw [reads] at same
      cases same
    · intro position within names
      simp only [asked] at names
      omega

/-- Adding one to the distance from zero to the last word. -/
theorem parse_inexact (e : UInt64) (top : e.toNat = 2 ^ 64 - 1) :
    (parse (named ⟨.index 0, .index e⟩)).exact = false := by
  have forward : ¬ e < 0 := by simp
  have distance : (sub e 0).value = e := by simp [sub]
  have wide : (add e 1).exact = false := by
    rw [add, decide_eq_false_iff_not, top]
    decide
  simp only [parse, named, ne_eq, not_true_eq_false, if_false, if_neg forward, exact_bind, distance,
    wide, Bool.false_and, Bool.and_false]

/-- Adding its length to an offset inside the object. -/
theorem resolve_inexact (r : ByteRange) (length size : UInt64) (bound : r.length = some length)
    (inside : r.offset < size) (reach : 2 ^ 64 ≤ r.offset.toNat + length.toNat) :
    (resolveByteRange (some r) size).exact = false := by
  have starts : ¬ size ≤ r.offset := by
    rw [UInt64.le_iff_toNat_le]
    rw [UInt64.lt_iff_toNat_lt] at inside
    omega
  have wide : (add r.offset length).exact = false := by
    rw [add, decide_eq_false_iff_not]
    omega
  simp only [resolveByteRange, resolve, if_neg starts, bound, exact_bind, wide, Bool.false_and]

/-- A pair whose last position is the last word wraps while it is read, or while
it is resolved inside the object. -/
theorem wraps_inexact (s e size : UInt64) (wrapping : wraps ⟨.index s, .index e⟩ size) :
    ¬ Answers ⟨.index s, .index e⟩ size := by
  intro answers
  obtain ⟨top, reached⟩ := wrapping
  by_cases zero : s = 0
  · subst zero
    have parsed := answers.parsed
    rw [parse_inexact e top] at parsed
    cases parsed
  · have inside : s < size := reached.resolve_left zero
    have positive : 0 < s.toNat := Nat.pos_of_ne_zero fun none => zero (UInt64.toNat.inj none)
    have small : s.toNat < 2 ^ 64 := s.toNat_lt
    obtain ⟨length, reads, count⟩ := parse_pair s e (by omega) (by omega)
    have served := (answers.served (.bounded s length) (by rw [reads]; rfl)).1
    rw [resolve_inexact (.bounded s length) length size rfl inside
      (by change 2 ^ 64 ≤ s.toNat + length.toNat; omega)] at served
    cases served

/-- The code answers a range as asked exactly when it does not add one to the last
word. -/
theorem answers_iff (range : SyntacticRange) (size : UInt64) :
    Answers range size ↔ ¬ wraps range size := by
  constructor
  · intro answers wrapping
    match range with
    | ⟨.index s, .index e⟩ => exact wraps_inexact s e size wrapping answers
  · intro steady
    match range with
    | ⟨.fromLast n, stop⟩ => exact answers_suffix n size stop
    | ⟨.index s, .lastByte⟩ => exact answers_open s size
    | ⟨.index s, .index e⟩ => exact answers_pair s e size steady

/-- `bytes=0-18446744073709551615` of three bytes: the length wraps to zero and the
span that comes out is empty. -/
theorem lastWord_empty :
    let range : SyntacticRange := ⟨.index 0, .index 0xFFFFFFFFFFFFFFFF⟩
    (parse (named range)).exact = false ∧
      (headSpan (named range) 3).value = .ok (0, 0) ∧
      (getSpan (named range) 3).value = .ok (0, 0) ∧
      ¬ Intersects range 3 (headSpan (named range) 3).value ∧
      ¬ Answers range 3 := by
  refine ⟨by decide, by decide, by decide, ?_, ?_⟩
  · intro meets
    have head : (headSpan (named ⟨.index 0, .index 0xFFFFFFFFFFFFFFFF⟩) 3).value = .ok (0, 0) := by
      decide
    rw [head] at meets
    exact absurd meets.1 (by decide)
  · apply wraps_inexact
    decide

end OriginCache.Request.Ranges
