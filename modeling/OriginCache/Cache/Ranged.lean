import OriginCache.Cache.Staging

/-! The bodies of ranged responses that do not ride a run: staged pieces, then the
bytes of one upstream stream. Only the standalone escape caps what it reads, and
it looks at the cap before a read and never inside one. -/

namespace OriginCache.Cache.Ranged
open SegName Store Staging

/-- Bytes moved per read. -/
def chunkSize : Nat := 256 * 1024

/-- How a stream goes on after its last byte. -/
inductive Final
  | eof | failed | silent
deriving DecidableEq, Repr

/-- What the reads of a stream return: each fills some of the buffer. -/
structure Upstream where
  reads : List Bytes
  filled : ∀ chunk ∈ reads, chunk ≠ [] ∧ chunk.length ≤ chunkSize
  final : Final

inductive Finish
  | complete | error | waiting
deriving DecidableEq, Repr

def Final.finish : Final → Finish
  | .eof => .complete
  | .failed => .error
  | .silent => .waiting

structure Served where
  bytes : Bytes
  finish : Finish
deriving DecidableEq, Repr

/-- The pump. `copied` tells whether the staged copy of the chunk that begins
after so many bytes reaches its file; a body without a sink copies nothing. -/
@[grind =] def upstreamBody (want : Option Nat) (copied : Nat → Bool) (final : Final) (written : Nat) :
    List Bytes → Served
  | [] => if want.any (· ≤ written) then ⟨[], .complete⟩ else ⟨[], final.finish⟩
  | chunk :: rest =>
      if want.any (· ≤ written) then ⟨[], .complete⟩
      else if copied written then
        let later := upstreamBody want copied final (written + chunk.length) rest
        ⟨chunk ++ later.bytes, later.finish⟩
      else ⟨[], .error⟩

/-- The span the seal names once the stream is exhausted. -/
def sealSpan (start : Nat) (tail : Served) : Option (Nat × Nat) :=
  if tail.finish = .complete ∧ tail.bytes ≠ [] then some (start, start + tail.bytes.length) else none

/-- The pieces from the files they name, then the tail. -/
@[grind =] def piecesThen (files : Text → Option Bytes) (tail : Served) : List Piece → Served
  | [] => tail
  | piece :: rest =>
      match files piece.path with
      | none => ⟨[], .error⟩
      | some content =>
          let part := (content.drop piece.offset).take piece.len
          if part.length < piece.len then ⟨part, .error⟩
          else
            let later := piecesThen files tail rest
            ⟨part ++ later.bytes, later.finish⟩

inductive Way
  | escape | refused | plain
deriving DecidableEq, Repr

structure Request where
  start : Nat
  stop : Nat
  range : start ≤ stop

def Request.contentLength (request : Request) : Nat := request.stop - request.start

structure Response where
  body : Served
  staged : Option (Nat × Nat)

def planFor (way : Way) (segs : List (Nat × Nat × Text)) (request : Request) : StagedPlan :=
  match way with
  | .plain => ⟨[], request.start⟩
  | _ => planStaged segs request.start request.stop

/-- The upstream half at each of the three call sites. -/
def tailFor (way : Way) (request : Request) (frontier : Nat) (copied : Nat → Bool)
    (upstream : Upstream) : Served :=
  match way with
  | .escape => upstreamBody (some (request.stop - frontier)) copied upstream.final 0 upstream.reads
  | _ => upstreamBody none (fun _ => true) upstream.final 0 upstream.reads

def respond (way : Way) (segs : List (Nat × Nat × Text)) (files : Text → Option Bytes)
    (copied : Nat → Bool) (upstream : Upstream) (request : Request) : Response :=
  let plan := planFor way segs request
  let tail := tailFor way request plan.frontier copied upstream
  let body := piecesThen files tail plan.pieces
  ⟨body, if way = .escape ∧ body.finish = .complete then sealSpan plan.frontier tail else none⟩

/-- The response keeps its promised length and stages nothing past its range. -/
def KeepsLength (request : Request) (response : Response) : Prop :=
  response.body.bytes.length ≤ request.contentLength ∧
    (response.body.finish = .complete → response.body.bytes.length = request.contentLength) ∧
    ∀ span ∈ response.staged, span.2 ≤ request.stop

/-! Where the lengths come out right. -/

/-- The reads whose copies reach the file, and whether all of them do. -/
def keptReads (copied : Nat → Bool) (written : Nat) : List Bytes → List Bytes × Bool
  | [] => ([], true)
  | chunk :: rest =>
      if copied written then
        let later := keptReads copied (written + chunk.length) rest
        (chunk :: later.1, later.2)
      else ([], false)

/-- Some reads end exactly at the cap, or the stream breaks off before it. -/
def CapMeets (copied : Nat → Bool) (upstream : Upstream) (want : Nat) : Prop :=
  let kept := keptReads copied 0 upstream.reads
  (∃ front, front <+: kept.1 ∧ front.flatten.length = want) ∨
    (kept.1.flatten.length < want ∧ (kept.2 = false ∨ upstream.final ≠ .eof))

/-- The stream holds no more than was asked for, and no less if it ends. -/
def StreamMeets (upstream : Upstream) (want : Nat) : Prop :=
  upstream.reads.flatten.length ≤ want ∧
    (upstream.final = .eof → upstream.reads.flatten.length = want)

def Intact (files : Text → Option Bytes) (pieces : List Piece) : Prop :=
  ∀ piece ∈ pieces, ∃ content, files piece.path = some content ∧
    piece.len ≤ content.length - piece.offset

def TailMeets (way : Way) (copied : Nat → Bool) (upstream : Upstream) (want : Nat) : Prop :=
  match way with
  | .escape => CapMeets copied upstream want
  | _ => StreamMeets upstream want

/-- A staged file is gone or short, or the upstream half has the right length. -/
def LengthsMeet (way : Way) (segs : List (Nat × Nat × Text)) (files : Text → Option Bytes)
    (copied : Nat → Bool) (upstream : Upstream) (request : Request) : Prop :=
  let plan := planFor way segs request
  ¬ Intact files plan.pieces ∨ TailMeets way copied upstream (request.stop - plan.frontier)

def Fits (want : Nat) (served : Served) : Prop :=
  served.bytes.length ≤ want ∧ (served.finish = .complete → served.bytes.length = want)

theorem finish_complete_iff (final : Final) : final.finish = .complete ↔ final = .eof := by
  cases final <;> decide

theorem upstreamBody_uncapped (final : Final) (written : Nat) (reads : List Bytes) :
    upstreamBody none (fun _ => true) final written reads = ⟨reads.flatten, final.finish⟩ := by
  induction reads generalizing written with
  | nil => rfl
  | cons chunk rest ih => simp [upstreamBody, ih]

theorem streamMeets_iff (upstream : Upstream) (want : Nat) :
    Fits want (upstreamBody none (fun _ => true) upstream.final 0 upstream.reads) ↔
      StreamMeets upstream want := by
  rw [upstreamBody_uncapped, Fits, StreamMeets]
  simp only [finish_complete_iff]

theorem upstreamBody_reached (want : Nat) (copied : Nat → Bool) (final : Final) (written : Nat)
    (reads : List Bytes) (reached : want ≤ written) :
    upstreamBody (some want) copied final written reads = ⟨[], .complete⟩ := by
  cases reads <;> simp [upstreamBody, reached]

theorem fits_append (want : Nat) (chunk : Bytes) (later : Served) (room : chunk.length ≤ want) :
    Fits want ⟨chunk ++ later.bytes, later.finish⟩ ↔ Fits (want - chunk.length) later := by
  simp only [Fits, List.length_append]
  refine ⟨fun fits => ⟨by omega, fun ends => ?_⟩, fun fits => ⟨by omega, fun ends => ?_⟩⟩
  · have total := fits.2 ends
    omega
  · have total := fits.2 ends
    omega

/-- The capped pump from any number of bytes already written. -/
theorem capped_iff (want : Nat) (copied : Nat → Bool) (final : Final) (reads : List Bytes)
    (filled : ∀ chunk ∈ reads, chunk ≠ []) (written : Nat) (below : written ≤ want) :
    Fits (want - written) (upstreamBody (some want) copied final written reads) ↔
      (∃ front, front <+: (keptReads copied written reads).1 ∧
        written + front.flatten.length = want) ∨
      (written + (keptReads copied written reads).1.flatten.length < want ∧
        ((keptReads copied written reads).2 = false ∨ final ≠ .eof)) := by
  by_cases reached : want ≤ written
  · rw [upstreamBody_reached want copied final written _ reached]
    have same : written = want := Nat.le_antisymm below reached
    refine ⟨fun _ => Or.inl ⟨[], List.nil_prefix, by simp [same]⟩, fun _ => ?_⟩
    simp [Fits, same]
  have open_ : (some want).any (· ≤ written) = false := by simp; omega
  induction reads generalizing written with
  | nil =>
    simp only [upstreamBody, open_, Bool.false_eq_true, if_false, Fits, keptReads,
      finish_complete_iff, List.prefix_nil, exists_eq_left, List.flatten_nil, List.length_nil]
    cases final <;> simp <;> omega
  | cons chunk rest ih =>
    have long : 0 < chunk.length := List.length_pos_iff.mpr (filled chunk List.mem_cons_self)
    by_cases kept : copied written = true
    · simp only [upstreamBody, open_, keptReads, kept, if_true, Bool.false_eq_true, if_false]
      have behind : (∃ front, front <+: chunk :: (keptReads copied (written + chunk.length) rest).1 ∧
            written + front.flatten.length = want) ↔
          ∃ front, front <+: (keptReads copied (written + chunk.length) rest).1 ∧
            written + chunk.length + front.flatten.length = want := by
        refine ⟨fun found => ?_, fun found => ?_⟩
        · obtain ⟨front, beginning, total⟩ := found
          cases front with
          | nil =>
            simp only [List.flatten_nil, List.length_nil] at total
            omega
          | cons head front =>
            obtain ⟨rfl, beginning⟩ := List.cons_prefix_cons.mp beginning
            rw [List.flatten_cons, List.length_append] at total
            exact ⟨front, beginning, by omega⟩
        · obtain ⟨front, beginning, total⟩ := found
          refine ⟨chunk :: front, List.cons_prefix_cons.mpr ⟨rfl, beginning⟩, ?_⟩
          rw [List.flatten_cons, List.length_append]
          omega
      rw [behind, List.flatten_cons, List.length_append, ← Nat.add_assoc]
      by_cases fitting : written + chunk.length ≤ want
      · rw [fits_append _ chunk _ (by omega), Nat.sub_sub]
        by_cases full : want ≤ written + chunk.length
        · rw [upstreamBody_reached want copied final _ rest full]
          have same : written + chunk.length = want := Nat.le_antisymm fitting full
          refine ⟨fun _ => Or.inl ⟨[], List.nil_prefix, by simp [same]⟩, fun _ => ?_⟩
          simp [Fits, same]
        · exact ih (fun c member => filled c (List.mem_cons_of_mem chunk member))
            (written + chunk.length) fitting full (by simp; omega)
      · rw [upstreamBody_reached want copied final _ rest (by omega)]
        simp only [Fits, List.append_nil]
        refine ⟨fun fits => by omega, fun found => ?_⟩
        rcases found with ⟨front, _, total⟩ | ⟨short, _⟩ <;> omega
    · simp only [upstreamBody, open_, keptReads, kept, Bool.false_eq_true, if_false, Fits,
        List.length_nil, List.flatten_nil, true_or, and_true]
      refine ⟨fun _ => Or.inr (by omega), fun _ => ⟨Nat.zero_le _, fun ends => by cases ends⟩⟩

theorem capMeets_iff (copied : Nat → Bool) (upstream : Upstream) (want : Nat) :
    Fits want (upstreamBody (some want) copied upstream.final 0 upstream.reads) ↔
      CapMeets copied upstream want := by
  have general := capped_iff want copied upstream.final upstream.reads
    (fun chunk member => (upstream.filled chunk member).1) 0 (Nat.zero_le want)
  simpa only [Nat.sub_zero, Nat.zero_add, CapMeets] using general

/-! The staged head. -/

theorem piecesThen_intact (files : Text → Option Bytes) (tail : Served) (pieces : List Piece)
    (intact : Intact files pieces) :
    (piecesThen files tail pieces).bytes.length = plannedLen pieces + tail.bytes.length ∧
      (piecesThen files tail pieces).finish = tail.finish := by
  induction pieces with
  | nil => simp [piecesThen, plannedLen]
  | cons piece rest ih =>
    obtain ⟨content, found, long⟩ := intact piece List.mem_cons_self
    have later := ih fun other member => intact other (List.mem_cons_of_mem piece member)
    have whole : ((content.drop piece.offset).take piece.len).length = piece.len := by
      rw [List.length_take, List.length_drop]
      omega
    simp only [piecesThen, found, whole, Nat.lt_irrefl, if_false, List.length_append, later.1,
      later.2, plannedLen, List.map_cons, List.sum_cons, and_true]
    omega

theorem piecesThen_broken (files : Text → Option Bytes) (tail : Served) (pieces : List Piece)
    (broken : ¬ Intact files pieces) :
    (piecesThen files tail pieces).bytes.length ≤ plannedLen pieces ∧
      (piecesThen files tail pieces).finish = .error := by
  induction pieces with
  | nil => exact (broken fun piece member => by cases member).elim
  | cons piece rest ih =>
    simp only [piecesThen, plannedLen, List.map_cons, List.sum_cons]
    cases found : files piece.path with
    | none => exact ⟨Nat.zero_le _, rfl⟩
    | some content =>
      have cut : ((content.drop piece.offset).take piece.len).length =
          min piece.len (content.length - piece.offset) := by
        rw [List.length_take, List.length_drop]
      by_cases short : ((content.drop piece.offset).take piece.len).length < piece.len
      · simp only [short, if_true, and_true]
        omega
      · have rest_broken : ¬ Intact files rest := by
          intro intact
          apply broken
          intro other member
          rcases List.mem_cons.mp member with rfl | later
          · exact ⟨content, found, by omega⟩
          · exact intact other later
        have later := ih rest_broken
        simp only [plannedLen] at later
        simp only [short, if_false, List.length_append, later.2, and_true]
        omega

theorem planFor_frontier (way : Way) (segs : List (Nat × Nat × Text)) (request : Request) :
    request.start + plannedLen (planFor way segs request).pieces =
        (planFor way segs request).frontier ∧
      (planFor way segs request).frontier ≤ request.stop := by
  cases way with
  | plain => exact ⟨rfl, request.range⟩
  | escape =>
    exact ⟨plannedLen_planStaged segs _ _ request.range, (planFrom_frontier _ _ segs request.range).2⟩
  | refused =>
    exact ⟨plannedLen_planStaged segs _ _ request.range, (planFrom_frontier _ _ segs request.range).2⟩

theorem tailFor_fits (way : Way) (request : Request) (frontier : Nat) (copied : Nat → Bool)
    (upstream : Upstream) :
    Fits (request.stop - frontier) (tailFor way request frontier copied upstream) ↔
      TailMeets way copied upstream (request.stop - frontier) := by
  cases way with
  | escape => exact capMeets_iff copied upstream _
  | refused => exact streamMeets_iff upstream _
  | plain => exact streamMeets_iff upstream _

/-- A staged span ends where the body's bytes end. -/
theorem staged_inside (way : Way) (segs : List (Nat × Nat × Text)) (files : Text → Option Bytes)
    (copied : Nat → Bool) (upstream : Upstream) (request : Request)
    (fits : Fits request.contentLength (respond way segs files copied upstream request).body) :
    ∀ span ∈ (respond way segs files copied upstream request).staged, span.2 ≤ request.stop := by
  intro span member
  have plan := planFor_frontier way segs request
  have range := request.range
  simp only [respond, Request.contentLength] at fits member
  split_ifs at member with sealing
  · have intact : Intact files (planFor way segs request).pieces := by
      by_contra broken
      have ends := (piecesThen_broken files (tailFor way request (planFor way segs request).frontier
        copied upstream) _ broken).2
      rw [sealing.2] at ends
      cases ends
    have long := (piecesThen_intact files (tailFor way request (planFor way segs request).frontier
      copied upstream) _ intact).1
    have total := fits.1
    unfold sealSpan at member
    split_ifs at member with some_
    · cases member
      simp only
      omega
    · cases member
  · cases member

/-- The length is right exactly when a staged file breaks off first or the
upstream half has the length of the part it stands for. -/
theorem keepsLength_iff (way : Way) (segs : List (Nat × Nat × Text)) (files : Text → Option Bytes)
    (copied : Nat → Bool) (upstream : Upstream) (request : Request) :
    KeepsLength request (respond way segs files copied upstream request) ↔
      LengthsMeet way segs files copied upstream request := by
  have plan := planFor_frontier way segs request
  have range := request.range
  have split : KeepsLength request (respond way segs files copied upstream request) ↔
      Fits request.contentLength (respond way segs files copied upstream request).body :=
    ⟨fun keeps => ⟨keeps.1, keeps.2.1⟩, fun fits =>
      ⟨fits.1, fits.2, staged_inside way segs files copied upstream request fits⟩⟩
  rw [split, LengthsMeet, ← tailFor_fits]
  simp only [respond, Request.contentLength]
  by_cases intact : Intact files (planFor way segs request).pieces
  · have whole := piecesThen_intact files
      (tailFor way request (planFor way segs request).frontier copied upstream) _ intact
    simp only [intact, not_true_eq_false, false_or, Fits, whole]
    refine ⟨fun fits => ⟨by omega, fun ends => ?_⟩, fun fits => ⟨by omega, fun ends => ?_⟩⟩
    · have total := fits.2 ends
      omega
    · have total := fits.2 ends
      omega
  · have broken := piecesThen_broken files
      (tailFor way request (planFor way segs request).frontier copied upstream) _ intact
    simp only [intact, not_false_eq_true, true_or, iff_true]
    refine ⟨by omega, fun ends => ?_⟩
    rw [broken.2] at ends
    cases ends

/-- Two bytes in one read, then the end. -/
def twoBytes : Upstream := ⟨[[7, 8]], by simp [chunkSize], .eof⟩

/-- Asked for one byte, the escape serves two and stages a span of two; asked for
three, the refused path ends after two without an error. -/
theorem twoBytes_lengths :
    (respond .escape [] (fun _ => none) (fun _ => true) twoBytes ⟨0, 1, by decide⟩).body =
        ⟨[7, 8], .complete⟩ ∧
      (respond .escape [] (fun _ => none) (fun _ => true) twoBytes ⟨0, 1, by decide⟩).staged =
        some (0, 2) ∧
      ¬ KeepsLength ⟨0, 1, by decide⟩
        (respond .escape [] (fun _ => none) (fun _ => true) twoBytes ⟨0, 1, by decide⟩) ∧
      (respond .refused [] (fun _ => none) (fun _ => true) twoBytes ⟨0, 3, by decide⟩).body =
        ⟨[7, 8], .complete⟩ ∧
      ¬ KeepsLength ⟨0, 3, by decide⟩
        (respond .refused [] (fun _ => none) (fun _ => true) twoBytes ⟨0, 3, by decide⟩) := by
  refine ⟨by decide, by decide, fun keeps => ?_, by decide, fun keeps => ?_⟩
  · exact absurd keeps.1 (by decide)
  · exact absurd (keeps.2.1 (by decide)) (by decide)

end OriginCache.Cache.Ranged
