import Mathlib.Data.List.Basic
import OriginCache.Foundation.Markup

/-! Documents of elements, written with their tags and read back from them. An element
holds a text or a row of elements, and its tag carries its attributes. -/

namespace OriginCache.Foundation.Elements
open Markup

inductive Row
  | done
  | leaf (tag text : List Char) (next : Row)
  | branch (tag : List Char) (inner next : Row)
deriving DecidableEq, Repr

def nameOf (tag : List Char) : List Char := tag.takeWhile (· ≠ ' ')

/-! Writing. -/

def opening (tag : List Char) : List Char := '<' :: tag ++ ['>']

def ending (tag : List Char) : List Char := '/' :: nameOf tag

@[grind =] def Row.write : Row → List Char
  | done => []
  | leaf tag text next => opening tag ++ text ++ opening (ending tag) ++ next.write
  | branch tag inner next => opening tag ++ inner.write ++ opening (ending tag) ++ next.write

@[grind =] def Row.append : Row → Row → Row
  | done, other => other
  | leaf tag text next, other => leaf tag text (next.append other)
  | branch tag inner next, other => branch tag inner (next.append other)

instance : Append Row := ⟨Row.append⟩

def concat (rows : List Row) : Row := rows.foldr (· ++ ·) .done

/-! Reading. -/

/-- The tags of a text, each with the text in front of it. What is read of them so far is
kept apart. -/
@[grind =] def tagsFrom (text : List Char) : Option (List Char) → List Char → List (List Char × List Char)
  | _, [] => []
  | none, c :: rest => if c = '<' then tagsFrom text (some []) rest else tagsFrom (text ++ [c]) none rest
  | some tag, c :: rest =>
      if c = '>' then (text, tag) :: tagsFrom [] none rest else tagsFrom text (some (tag ++ [c])) rest

def tagsOf (document : List Char) : List (List Char × List Char) := tagsFrom [] none document

def ends (tag : List Char) : Bool := tag.head? = some '/'

/-- The elements up to a tag that ends none of them, and what comes behind them. An
element that ends at once holds a text. -/
@[grind =] def build : Nat → List (List Char × List Char) → Option (Row × List (List Char × List Char))
  | 0, _ => none
  | _ + 1, [] => some (.done, [])
  | n + 1, (text, tag) :: rest =>
      if ends tag then some (.done, (text, tag) :: rest)
      else
        match rest with
        | [] => none
        | (inside, last) :: later =>
            if last = ending tag then
              (build n later).map fun next => (.leaf tag (unescape inside) next.1, next.2)
            else
              (build n rest).bind fun inner =>
                match inner.2 with
                | [] => none
                | (_, last) :: later =>
                    if last = ending tag then
                      (build n later).map fun next => (.branch tag inner.1 next.1, next.2)
                    else none

/-- What comes behind a declaration and the blanks after it. -/
def bodyOf : List Char → List Char
  | '<' :: '?' :: rest => (rest.dropWhile (· ≠ '>')).tail.dropWhile Char.isWhitespace
  | document => document

def read (document : List Char) : Option Row :=
  let tags := tagsOf (bodyOf document)
  (build (tags.length + 1) tags).bind fun built => if built.2 = [] then some built.1 else none

/-- The elements as they are read, with the references in their texts resolved. -/
@[grind =] def Row.resolved : Row → Row
  | done => done
  | leaf tag text next => leaf tag (unescape text) next.resolved
  | branch tag inner next => branch tag inner.resolved next.resolved

/-! The elements of a name. -/

@[grind =] def Row.texts (name : List Char) : Row → List (List Char)
  | done => []
  | leaf tag text next => if nameOf tag = name then text :: next.texts name else next.texts name
  | branch _ _ next => next.texts name

@[grind =] def Row.rows (name : List Char) : Row → List Row
  | done => []
  | leaf _ _ next => next.rows name
  | branch tag inner next => if nameOf tag = name then inner :: next.rows name else next.rows name

/-! What can be written. -/

def FineTag (tag : List Char) : Bool := '>' ∉ tag ∧ ends tag = false

/-- No text opens a tag, and only texts are empty. -/
@[grind =] def Row.Fine : Row → Prop
  | done => True
  | leaf tag text next => FineTag tag = true ∧ '<' ∉ text ∧ next.Fine
  | branch tag inner next => FineTag tag = true ∧ inner ≠ done ∧ inner.Fine ∧ next.Fine

/-! The tags of what is written. -/

@[grind =] def Row.tags : Row → List (List Char × List Char)
  | done => []
  | leaf tag text next => ([], tag) :: (text, ending tag) :: next.tags
  | branch tag inner next => ([], tag) :: inner.tags ++ ([], ending tag) :: next.tags

theorem tagsFrom_text (text more rest : List Char) (free : '<' ∉ more) :
    tagsFrom text none (more ++ rest) = tagsFrom (text ++ more) none rest := by
  induction more generalizing text with
  | nil => rw [List.append_nil, List.nil_append]
  | cons c more ih =>
    have other : c ≠ '<' := fun same => free (same ▸ List.mem_cons_self)
    have later : '<' ∉ more := fun member => free (List.mem_cons_of_mem c member)
    rw [List.cons_append, tagsFrom, if_neg other, ih (text ++ [c]) later, List.append_assoc, List.singleton_append]

theorem tagsFrom_tag (text seen tag rest : List Char) (free : '>' ∉ tag) :
    tagsFrom text (some seen) (tag ++ '>' :: rest) = (text, seen ++ tag) :: tagsFrom [] none rest := by
  induction tag generalizing seen with
  | nil => rw [List.nil_append, tagsFrom, if_pos rfl, List.append_nil]
  | cons c tag ih =>
    have other : c ≠ '>' := fun same => free (same ▸ List.mem_cons_self)
    have later : '>' ∉ tag := fun member => free (List.mem_cons_of_mem c member)
    rw [List.cons_append, tagsFrom, if_neg other, ih (seen ++ [c]) later, List.append_assoc, List.singleton_append]

theorem tagsFrom_opening (text tag rest : List Char) (free : '>' ∉ tag) :
    tagsFrom text none (opening tag ++ rest) = (text, tag) :: tagsFrom [] none rest := by
  have shape : opening tag ++ rest = '<' :: (tag ++ '>' :: rest) := by
    simp only [opening, List.cons_append, List.append_assoc, List.nil_append]
  rw [shape, tagsFrom, if_pos rfl, tagsFrom_tag text [] tag rest free, List.nil_append]

theorem ending_free (tag : List Char) (free : '>' ∉ tag) : '>' ∉ ending tag := by
  intro member
  rcases List.mem_cons.mp member with slash | inside
  · exact absurd slash (by decide)
  · exact free (List.takeWhile_subset _ inside)

theorem tagsFrom_write (row : Row) (rest : List Char) (fine : row.Fine) :
    tagsFrom [] none (row.write ++ rest) = row.tags ++ tagsFrom [] none rest := by
  induction row generalizing rest with
  | done => rfl
  | leaf tag text next ih =>
    obtain ⟨good, free, later⟩ := fine
    have closed := (of_decide_eq_true good).1
    simp only [Row.write, Row.tags, List.append_assoc, List.cons_append]
    rw [tagsFrom_opening [] tag _ closed, tagsFrom_text [] text _ free, List.nil_append,
      tagsFrom_opening text (ending tag) _ (ending_free tag closed), ih rest later]
  | branch tag inner next first ih =>
    obtain ⟨good, -, within, later⟩ := fine
    have closed := (of_decide_eq_true good).1
    simp only [Row.write, Row.tags, List.append_assoc, List.cons_append]
    rw [tagsFrom_opening [] tag _ closed, first _ within, tagsFrom_opening [] (ending tag) _ (ending_free tag closed),
      ih rest later]

/-! Reading what is written. -/

theorem ends_ending (tag : List Char) : ends (ending tag) = true := rfl

/-- The next tag behind a row ends the element that holds it. -/
def Ended (rest : List (List Char × List Char)) : Prop := ∀ first ∈ rest.head?, ends first.2 = true

theorem tags_first (row : Row) (fine : row.Fine) (some_ : row ≠ .done) :
    ∃ tag later, row.tags = ([], tag) :: later ∧ ends tag = false := by
  cases row with
  | done => exact absurd rfl some_
  | leaf tag text next => exact ⟨tag, _, rfl, (of_decide_eq_true fine.1).2⟩
  | branch tag inner next => exact ⟨tag, _, rfl, (of_decide_eq_true fine.1).2⟩

theorem build_tags (n : Nat) (row : Row) (rest : List (List Char × List Char)) (fine : row.Fine)
    (room : row.tags.length < n) (ended : Ended rest) : build n (row.tags ++ rest) = some (row.resolved, rest) := by
  induction row generalizing n rest with
  | done =>
    cases n with
    | zero => exact absurd room (Nat.not_lt_zero _)
    | succ n =>
      cases rest with
      | nil => rfl
      | cons first rest =>
        have last := ended first rfl
        simp only [Row.tags, List.nil_append, build, last, if_true, Row.resolved]
  | leaf tag text next ih =>
    cases n with
    | zero => exact absurd room (Nat.not_lt_zero _)
    | succ n =>
      obtain ⟨good, -, later⟩ := fine
      have opens := (of_decide_eq_true good).2
      have fits : next.tags.length < n := by
        simp only [Row.tags, List.length_cons] at room
        omega
      simp only [Row.tags, List.cons_append, build, opens, Bool.false_eq_true, if_false, if_true,
        ih n rest later fits ended, Option.map_some, Row.resolved]
  | branch tag inner next first ih =>
    cases n with
    | zero => exact absurd room (Nat.not_lt_zero _)
    | succ n =>
      obtain ⟨good, holds, within, later⟩ := fine
      have opens := (of_decide_eq_true good).2
      simp only [Row.tags, List.length_cons, List.length_append] at room
      obtain ⟨inmost, more, shape, starts⟩ := tags_first inner within holds
      have differs : inmost ≠ ending tag := fun same => by
        rw [same, ends_ending] at starts
        exact absurd starts (by decide)
      have inside : build n (inner.tags ++ ([], ending tag) :: (next.tags ++ rest)) =
          some (inner.resolved, ([], ending tag) :: (next.tags ++ rest)) := by
        apply first n _ within (by omega)
        intro last member
        cases member
        exact ends_ending tag
      rw [shape] at inside
      simp only [Row.tags, shape, List.cons_append, List.append_assoc, build, opens, Bool.false_eq_true, if_false,
        differs] at inside ⊢
      simp only [inside, Option.bind_some, if_true, ih n rest later (by omega) ended, Option.map_some, Row.resolved]

theorem write_begins (row : Row) : row.write = [] ∨ ∃ rest, row.write = '<' :: rest := by
  cases row with
  | done => exact .inl rfl
  | leaf tag text next => exact .inr ⟨_, rfl⟩
  | branch tag inner next => exact .inr ⟨_, rfl⟩

/-- What is written behind a declaration is read back, with the references resolved. -/
theorem read_write (declaration blanks : List Char) (row : Row) (closed : '>' ∉ declaration)
    (blank : ∀ c ∈ blanks, c.isWhitespace = true) (fine : row.Fine) :
    read ('<' :: '?' :: declaration ++ '>' :: blanks ++ row.write) = some row.resolved := by
  have body : bodyOf ('<' :: '?' :: declaration ++ '>' :: blanks ++ row.write) = row.write := by
    have other : ∀ c ∈ declaration, decide (c ≠ '>') = true := by
      intro c member
      apply decide_eq_true
      rintro rfl
      exact closed member
    have dropped : (declaration ++ '>' :: (blanks ++ row.write)).dropWhile (· ≠ '>') =
        '>' :: (blanks ++ row.write) := by
      rw [List.dropWhile_append_of_pos other]
      rfl
    simp only [List.cons_append, List.append_assoc, bodyOf, dropped, List.tail_cons]
    rw [List.dropWhile_append_of_pos blank]
    rcases write_begins row with none_ | ⟨rest, begins⟩
    · rw [none_]
      rfl
    · rw [begins]
      rfl
  have tags : tagsOf row.write = row.tags := by
    have written := tagsFrom_write row [] fine
    rwa [List.append_nil, tagsFrom, List.append_nil] at written
  have built := build_tags (row.tags.length + 1) row [] fine (Nat.lt_succ_self _) fun first member => by cases member
  rw [List.append_nil] at built
  unfold read
  simp only [body, tags, built, Option.bind_some, if_true]

/-! Rows one behind the other. -/

@[simp] theorem done_append (row : Row) : Row.done ++ row = row := rfl

@[simp] theorem leaf_append (tag text : List Char) (next row : Row) :
    Row.leaf tag text next ++ row = .leaf tag text (next ++ row) := rfl

@[simp] theorem branch_append (tag : List Char) (inner next row : Row) :
    Row.branch tag inner next ++ row = .branch tag inner (next ++ row) := rfl

theorem write_append (first second : Row) : (first ++ second).write = first.write ++ second.write := by
  induction first with
  | done => rfl
  | leaf tag text next ih => simp only [leaf_append, Row.write, ih, List.append_assoc]
  | branch tag inner next _ ih => simp only [branch_append, Row.write, ih, List.append_assoc]

theorem resolved_append (first second : Row) : (first ++ second).resolved = first.resolved ++ second.resolved := by
  induction first with
  | done => rfl
  | leaf tag text next ih => simp only [leaf_append, Row.resolved, ih]
  | branch tag inner next _ ih => simp only [branch_append, Row.resolved, ih]

theorem texts_append (name : List Char) (first second : Row) :
    (first ++ second).texts name = first.texts name ++ second.texts name := by
  induction first with
  | done => rfl
  | leaf tag text next ih =>
    simp only [leaf_append, Row.texts, ih]
    split_ifs <;> rfl
  | branch tag inner next _ ih => simp only [branch_append, Row.texts, ih]

theorem rows_append (name : List Char) (first second : Row) :
    (first ++ second).rows name = first.rows name ++ second.rows name := by
  induction first with
  | done => rfl
  | leaf tag text next ih => simp only [leaf_append, Row.rows, ih]
  | branch tag inner next _ ih =>
    simp only [branch_append, Row.rows, ih]
    split_ifs <;> rfl

theorem fine_append (first second : Row) : (first ++ second).Fine ↔ first.Fine ∧ second.Fine := by
  induction first with
  | done => exact ⟨fun two => ⟨trivial, two⟩, fun both => both.2⟩
  | leaf tag text next ih => simp only [leaf_append, Row.Fine, ih, and_assoc]
  | branch tag inner next _ ih => simp only [branch_append, Row.Fine, ih, and_assoc]

theorem append_ne_done (first second : Row) (some_ : first ≠ .done) : first ++ second ≠ .done := by
  intro same
  cases first with
  | done => exact some_ rfl
  | leaf tag text next => cases same
  | branch tag inner next => cases same

/-! Many rows. -/

theorem write_concat (rows : List Row) : (concat rows).write = rows.flatMap Row.write := by
  induction rows with
  | nil => rfl
  | cons row rows ih => rw [List.flatMap_cons, ← ih, ← write_append]; rfl

theorem resolved_concat (rows : List Row) : (concat rows).resolved = concat (rows.map Row.resolved) := by
  induction rows with
  | nil => rfl
  | cons row rows ih => rw [List.map_cons, concat, List.foldr_cons, resolved_append, ← concat, ih]; rfl

theorem texts_concat (name : List Char) (rows : List Row) :
    (concat rows).texts name = rows.flatMap (Row.texts name) := by
  induction rows with
  | nil => rfl
  | cons row rows ih => rw [List.flatMap_cons, ← ih, ← texts_append]; rfl

theorem rows_concat (name : List Char) (rows : List Row) : (concat rows).rows name = rows.flatMap (Row.rows name) := by
  induction rows with
  | nil => rfl
  | cons row rows ih => rw [List.flatMap_cons, ← ih, ← rows_append]; rfl

theorem fine_concat (rows : List Row) (each : ∀ row ∈ rows, row.Fine) : (concat rows).Fine := by
  induction rows with
  | nil => exact trivial
  | cons row rows ih =>
    have later := ih fun other member => each other (List.mem_cons_of_mem row member)
    exact (fine_append _ _).mpr ⟨each row List.mem_cons_self, later⟩

end OriginCache.Foundation.Elements
