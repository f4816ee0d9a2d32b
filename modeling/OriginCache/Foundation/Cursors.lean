import Mathlib.Data.List.Induction
import Mathlib.Order.Defs.Unbundled
import Mathlib.Tactic.Common

/-! Paging by a cursor that names the last item emitted. The listing may change between
pages; each page is cut from the listing of its own time, behind the cursor. -/

namespace OriginCache.Foundation.Cursors

section Pages
variable {ι : Type*} (before : ι → ι → Prop) [DecidableRel before]

/-- What is behind the cursor; without one, everything. -/
def rest (cursor : Option ι) (items : List ι) : List ι := items.filter fun i => cursor.all fun c => before c i

def page (cap : Nat) (cursor : Option ι) (items : List ι) : List ι := (rest before cursor items).take cap

def more (cap : Nat) (cursor : Option ι) (items : List ι) : Bool := cap < (rest before cursor items).length

/-- The pages of one listing after another, and whether the last of them says that
nothing is left. -/
@[grind =] def walk (cap : Nat) : Option ι → List (List ι) → List (List ι) × Bool
  | _, [] => ([], false)
  | cursor, items :: later =>
      if more before cap cursor items then
        let (pages, done) := walk cap (page before cap cursor items).getLast? later
        (page before cap cursor items :: pages, done)
      else ([page before cap cursor items], true)

variable {before} {cap : Nat} {cursor : Option ι} {items : List ι}

theorem walk_more (later : List (List ι)) (truncated : more before cap cursor items = true) :
    walk before cap cursor (items :: later) =
      (page before cap cursor items :: (walk before cap (page before cap cursor items).getLast? later).1,
        (walk before cap (page before cap cursor items).getLast? later).2) := by
  rw [walk, if_pos truncated]

theorem walk_last (later : List (List ι)) (whole : more before cap cursor items = false) :
    walk before cap cursor (items :: later) = ([page before cap cursor items], true) := by
  rw [walk, if_neg (by rw [whole]; exact Bool.false_ne_true)]

theorem rest_sublist : (rest before cursor items).Sublist items := List.filter_sublist

theorem mem_rest (i : ι) : i ∈ rest before cursor items ↔ i ∈ items ∧ ∀ c, cursor = some c → before c i := by
  unfold rest
  rw [List.mem_filter]
  cases cursor <;> simp

/-- A page that is cut short ends in an item: the next cursor. -/
theorem page_getLast (room : 0 < cap) (truncated : more before cap cursor items = true) :
    ∃ front last, page before cap cursor items = front ++ [last] ∧
      (page before cap cursor items).getLast? = some last := by
  have long : cap < (rest before cursor items).length := of_decide_eq_true truncated
  have positive : 0 < (page before cap cursor items).length := by
    rw [page, List.length_take]
    omega
  cases whole : page before cap cursor items using List.reverseRecOn with
  | nil =>
    rw [whole] at positive
    cases positive
  | append_singleton front last => exact ⟨front, last, rfl, List.getLast?_concat⟩

theorem page_of_whole (whole : more before cap cursor items = false) :
    page before cap cursor items = rest before cursor items := by
  apply List.take_of_length_le
  exact Nat.le_of_not_lt (of_decide_eq_false whole)

/-- Everything of the listing behind the cursor is on the page or behind its last item. -/
theorem page_splits (ascending : items.Pairwise before) {front : List ι} {last : ι}
    (ends : page before cap cursor items = front ++ [last]) (i : ι) (member : i ∈ rest before cursor items) :
    i ∈ page before cap cursor items ∨ before last i := by
  have ordered : (rest before cursor items).Pairwise before := ascending.sublist rest_sublist
  rw [← List.take_append_drop cap (rest before cursor items)] at member ordered
  cases List.mem_append.mp member with
  | inl here => exact .inl here
  | inr later =>
    change page before cap cursor items ++ _ |>.Pairwise before at ordered
    rw [ends] at ordered
    exact .inr ((List.pairwise_append.mp ordered).2.2 last (by simp) i later)

/-- Every page of a walk is one of the listing it was taken from. -/
theorem walk_page (snapshots : List (List ι)) (cursor : Option ι) (n : Nat) (shown : List ι)
    (nth : (walk before cap cursor snapshots).1[n]? = some shown) :
    ∃ items resumed, snapshots[n]? = some items ∧ shown = page before cap resumed items := by
  induction snapshots generalizing cursor n with
  | nil => cases nth
  | cons items later ih =>
    cases truncated : more before cap cursor items with
    | false =>
      rw [walk_last later truncated] at nth
      cases n with
      | zero => exact ⟨items, cursor, rfl, (Option.some.inj nth).symm⟩
      | succ n => cases nth
    | true =>
      rw [walk_more later truncated] at nth
      cases n with
      | zero => exact ⟨items, cursor, rfl, (Option.some.inj nth).symm⟩
      | succ n => exact ih _ n nth

theorem page_length (cursor : Option ι) (items : List ι) : (page before cap cursor items).length ≤ cap :=
  List.length_take_le _ _

theorem mem_of_mem_page (i : ι) (member : i ∈ page before cap cursor items) : i ∈ items :=
  rest_sublist.subset (List.mem_of_mem_take member)

/-- A walk that has come to its end has emitted whatever was in every listing it saw. -/
theorem walk_complete (room : 0 < cap) (snapshots : List (List ι))
    (ascending : ∀ items ∈ snapshots, items.Pairwise before) (cursor : Option ι)
    (done : (walk before cap cursor snapshots).2 = true) (i : ι)
    (always : ∀ items ∈ snapshots.take (walk before cap cursor snapshots).1.length, i ∈ items)
    (behind : ∀ c, cursor = some c → before c i) : i ∈ (walk before cap cursor snapshots).1.flatten := by
  induction snapshots generalizing cursor with
  | nil => cases done
  | cons items later ih =>
    cases truncated : more before cap cursor items with
    | false =>
      rw [walk_last later truncated] at always ⊢
      have here : i ∈ items := always items (by simp)
      rw [List.flatten_singleton, page_of_whole truncated]
      exact (mem_rest i).mpr ⟨here, behind⟩
    | true =>
      obtain ⟨front, last, ends, cursor'⟩ := page_getLast room truncated
      rw [walk_more later truncated] at always done ⊢
      rw [List.length_cons, List.take_succ_cons] at always
      have here : i ∈ items := always items List.mem_cons_self
      rw [List.flatten_cons, List.mem_append]
      cases page_splits (ascending items List.mem_cons_self) ends i ((mem_rest i).mpr ⟨here, behind⟩) with
      | inl paged => exact .inl paged
      | inr beyond =>
        refine .inr (ih (fun other member => ascending other (List.mem_cons_of_mem _ member)) _ done
          (fun other member => always other (List.mem_cons_of_mem _ member)) fun c named => ?_)
        rw [cursor'] at named
        cases named
        exact beyond

variable [IsTrans ι before]

/-- The pages emit in ascending order, all of it behind the cursor. -/
theorem walk_ascending (room : 0 < cap) (snapshots : List (List ι))
    (ascending : ∀ items ∈ snapshots, items.Pairwise before) (cursor : Option ι) :
    (walk before cap cursor snapshots).1.flatten.Pairwise before ∧
      ∀ i ∈ (walk before cap cursor snapshots).1.flatten, ∀ c, cursor = some c → before c i := by
  induction snapshots generalizing cursor with
  | nil => exact ⟨List.Pairwise.nil, by simp [walk]⟩
  | cons items later ih =>
    have first := ascending items List.mem_cons_self
    have ordered : (page before cap cursor items).Pairwise before :=
      (first.sublist rest_sublist).sublist (List.take_sublist _ _)
    have behind : ∀ i ∈ page before cap cursor items, ∀ c, cursor = some c → before c i :=
      fun i member => ((mem_rest i).mp (List.mem_of_mem_take member)).2
    cases truncated : more before cap cursor items with
    | false =>
      rw [walk_last later truncated, List.flatten_singleton]
      exact ⟨ordered, behind⟩
    | true =>
      obtain ⟨front, last, ends, cursor'⟩ := page_getLast room truncated
      have next := ih (fun other member => ascending other (List.mem_cons_of_mem _ member))
        (page before cap cursor items).getLast?
      rw [walk_more later truncated, List.flatten_cons]
      -- What comes later is behind the last item of this page, so behind all of it.
      have follows : ∀ a ∈ page before cap cursor items,
          ∀ b ∈ (walk before cap (page before cap cursor items).getLast? later).1.flatten, before a b := by
        intro a here b there
        have after := next.2 b there last cursor'
        rw [ends] at here
        cases List.mem_append.mp here with
        | inl early =>
          rw [ends] at ordered
          exact trans_of before (List.pairwise_append.mp ordered |>.2.2 a early last (by simp)) after
        | inr same =>
          rw [List.mem_singleton.mp same]
          exact after
      refine ⟨List.pairwise_append.mpr ⟨ordered, next.1, follows⟩, fun i member c named => ?_⟩
      cases List.mem_append.mp member with
      | inl here => exact behind i here c named
      | inr there =>
        have start := behind last (by rw [ends]; simp) c named
        exact trans_of before start (next.2 i there last cursor')

end Pages

/-! A listing that does not change. -/

section Fixed
variable {ι : Type*} {before : ι → ι → Prop} [DecidableRel before] [IsTrans ι before] [Std.Irrefl before]
  {cap : Nat} {cursor : Option ι} {items : List ι}

/-- Behind the last item of a page is what the page left out. -/
theorem rest_page (ascending : items.Pairwise before) {front : List ι} {last : ι}
    (ends : page before cap cursor items = front ++ [last]) :
    rest before (some last) items = (rest before cursor items).drop cap := by
  have split := List.take_append_drop cap (rest before cursor items)
  change page before cap cursor items ++ _ = _ at split
  have ordered : (rest before cursor items).Pairwise before := ascending.sublist rest_sublist
  have inside : last ∈ rest before cursor items := by
    rw [← split, ends]
    simp
  have beyond : rest before (some last) items = (rest before cursor items).filter fun i => before last i := by
    unfold rest
    rw [List.filter_filter]
    apply List.filter_congr
    intro i _
    by_cases behind : before last i
    · have from_ : (cursor.all fun c => decide (before c i)) = true := by
        cases cursor with
        | none => rfl
        | some c =>
          have start := ((mem_rest last).mp inside).2 c rfl
          simpa using trans_of before start behind
      simp [behind, from_]
    · simp [behind]
  rw [← split, ends] at ordered
  have parts := List.pairwise_append.mp ordered
  have ahead : (front ++ [last]).filter (fun i => before last i) = [] := by
    apply List.filter_eq_nil_iff.mpr
    intro i member
    rw [decide_eq_true_eq]
    intro behind
    cases List.mem_append.mp member with
    | inl early =>
      have forward := (List.pairwise_append.mp parts.1).2.2 i early last (by simp)
      exact irrefl_of before last (trans_of before behind forward)
    | inr same =>
      rw [List.mem_singleton.mp same] at behind
      exact irrefl_of before last behind
  have rest_ : ((rest before cursor items).drop cap).filter (fun i => before last i) =
      (rest before cursor items).drop cap := by
    apply List.filter_eq_self.mpr
    intro i member
    exact decide_eq_true (parts.2.2 last (by simp) i member)
  rw [beyond]
  conv_lhs => rw [← split, ends]
  rw [List.filter_append, ahead, rest_, List.nil_append]

/-- Over a listing that stays as it is the walk ends, and its pages are the listing. -/
theorem walk_fixed (room : 0 < cap) (ascending : items.Pairwise before) (cursor : Option ι) (n : Nat)
    (enough : (rest before cursor items).length < n) :
    (walk before cap cursor (List.replicate n items)).2 = true ∧
      (walk before cap cursor (List.replicate n items)).1.flatten = rest before cursor items := by
  induction n generalizing cursor with
  | zero => cases enough
  | succ n ih =>
    rw [List.replicate_succ]
    cases truncated : more before cap cursor items with
    | false =>
      rw [walk_last _ truncated, List.flatten_singleton]
      exact ⟨rfl, page_of_whole truncated⟩
    | true =>
      obtain ⟨front, last, ends, cursor'⟩ := page_getLast room truncated
      have left := rest_page ascending ends
      have shorter : (rest before (some last) items).length < n := by
        have long : cap < (rest before cursor items).length := of_decide_eq_true truncated
        rw [left, List.length_drop]
        omega
      have later := ih (some last) shorter
      rw [walk_more _ truncated, cursor', List.flatten_cons, later.2, left]
      exact ⟨later.1, List.take_append_drop cap _⟩

end Fixed

end OriginCache.Foundation.Cursors
