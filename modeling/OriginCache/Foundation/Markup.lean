import Mathlib.Data.List.Basic
import Mathlib.Data.List.Infix

/-! Text inside XML. A text is inert when it opens and closes no tag and each of its
ampersands begins a predefined entity; a document with a hole keeps its markup exactly
when what fills the hole is inert. -/

namespace OriginCache.Foundation.Markup

/-- What may follow an ampersand. -/
def entities : List (List Char) :=
  [['a', 'm', 'p', ';'], ['l', 't', ';'], ['g', 't', ';'], ['q', 'u', 'o', 't', ';'], ['a', 'p', 'o', 's', ';']]

/-- The angle brackets of a text, in order. -/
def angles (text : List Char) : List Char := text.filter fun c => c = '<' ∨ c = '>'

def Referenced (text : List Char) : Prop :=
  ∀ front back, text = front ++ '&' :: back → ∃ entity ∈ entities, entity <+: back

structure Inert (text : List Char) : Prop where
  angles : angles text = []
  referenced : Referenced text

/-! Angle brackets. -/

theorem angles_append (first second : List Char) : angles (first ++ second) = angles first ++ angles second := by
  unfold angles
  exact List.filter_append first second

theorem angles_eq_nil_iff (text : List Char) : angles text = [] ↔ '<' ∉ text ∧ '>' ∉ text := by
  unfold angles
  rw [List.filter_eq_nil_iff]
  constructor
  · intro none_
    constructor
    · intro opens
      exact none_ '<' opens (by decide)
    · intro closes
      exact none_ '>' closes (by decide)
  · intro free c member bracket
    rcases of_decide_eq_true bracket with rfl | rfl
    · exact free.1 member
    · exact free.2 member

/-- What fills a hole adds brackets unless it has none. -/
theorem angles_hole_iff (front slot other back : List Char) (plain : angles other = []) :
    angles (front ++ slot ++ back) = angles (front ++ other ++ back) ↔ angles slot = [] := by
  simp only [angles_append, plain, List.append_nil, List.append_left_inj]
  exact List.append_right_eq_self

/-! Ampersands. -/

theorem Referenced.append (first second : List Char) (one : Referenced first) (two : Referenced second) :
    Referenced (first ++ second) := by
  intro front back split
  rcases List.append_eq_append_iff.mp split with ⟨mid, rfl, later⟩ | ⟨mid, rfl, inside⟩
  · exact two mid back later
  · cases mid with
    | nil => exact two [] back inside.symm
    | cons c mid =>
      obtain ⟨rfl, rest⟩ := List.cons.inj inside
      obtain ⟨entity, known, opens⟩ := one front mid rfl
      refine ⟨entity, known, ?_⟩
      rw [rest]
      exact opens.trans (List.prefix_append _ _)

theorem referenced_free (text : List Char) (free : '&' ∉ text) : Referenced text := by
  intro front back split
  rw [split] at free
  exact absurd (List.mem_append_right _ List.mem_cons_self) free

theorem Referenced.suffix (front text : List Char) (whole : Referenced (front ++ text)) : Referenced text := by
  intro before after split
  apply whole (front ++ before) after
  rw [split, List.append_assoc]

theorem prefix_stopped (entity text rest : List Char) (stop : Char) (free : stop ∉ entity)
    (opens : entity <+: text ++ stop :: rest) : entity <+: text := by
  obtain ⟨tail, whole⟩ := opens
  rcases List.append_eq_append_iff.mp whole with ⟨mid, same, -⟩ | ⟨mid, same, later⟩
  · exact ⟨mid, same.symm⟩
  · cases mid with
    | nil =>
      rw [same, List.append_nil]
    | cons c mid =>
      obtain ⟨rfl, -⟩ := List.cons.inj later
      rw [same] at free
      exact absurd (List.mem_append_right _ List.mem_cons_self) free

/-- An ampersand finds its entity before a character that no entity has. -/
theorem Referenced.hole (front slot back : List Char) (stop : Char) (free : ∀ entity ∈ entities, stop ∉ entity)
    (whole : Referenced (front ++ slot ++ stop :: back)) : Referenced slot := by
  intro before after split
  have placed : front ++ slot ++ stop :: back = (front ++ before) ++ '&' :: (after ++ stop :: back) := by
    rw [split]
    simp only [List.append_assoc, List.cons_append]
  obtain ⟨entity, known, opens⟩ := whole _ _ placed
  exact ⟨entity, known, prefix_stopped entity after back stop (free entity known) opens⟩

/-! Inert texts. -/

theorem inert_nil : Inert [] := ⟨rfl, referenced_free [] List.not_mem_nil⟩

theorem inert_plain (text : List Char) (opens : '<' ∉ text) (closes : '>' ∉ text) (free : '&' ∉ text) : Inert text :=
  ⟨(angles_eq_nil_iff text).mpr ⟨opens, closes⟩, referenced_free text free⟩

def bare (text : List Char) : Bool := text.all fun c => c ≠ '<' ∧ c ≠ '>' ∧ c ≠ '&'

theorem inert_bare (text : List Char) (plain : bare text = true) : Inert text := by
  have each := List.all_eq_true.mp plain
  have free (c : Char) (special : decide (c ≠ '<' ∧ c ≠ '>' ∧ c ≠ '&') = false) : c ∉ text := fun member =>
    absurd ((each c member).symm.trans special) (by decide)
  exact inert_plain text (free '<' (by decide)) (free '>' (by decide)) (free '&' (by decide))

theorem Inert.append (first second : List Char) (one : Inert first) (two : Inert second) : Inert (first ++ second) := by
  constructor
  · rw [angles_append, one.angles, two.angles]
    rfl
  · exact one.referenced.append first second two.referenced

theorem inert_entity (entity : List Char) (known : entity ∈ entities) : Inert ('&' :: entity) := by
  have plain : ∀ entity ∈ entities, angles ('&' :: entity) = [] ∧ '&' ∉ entity := by decide
  obtain ⟨bare, free⟩ := plain entity known
  refine ⟨bare, ?_⟩
  intro front back split
  cases front with
  | nil => exact ⟨entity, known, (List.cons.inj split).2 ▸ List.prefix_rfl⟩
  | cons c front =>
    rw [(List.cons.inj split).2] at free
    exact absurd (List.mem_append_right _ List.mem_cons_self) free

/-- Escaping one character at a time. -/
theorem inert_flatMap (escape : Char → List Char) (each : ∀ c, Inert (escape c)) (text : List Char) :
    Inert (text.flatMap escape) := by
  induction text with
  | nil => exact inert_nil
  | cons c text ih =>
    rw [List.flatMap_cons]
    exact (each c).append _ _ ih

/-! Reading references back. -/

/-- Each predefined entity is read as its character, any other ampersand as itself. -/
@[grind =] def unescape : List Char → List Char
  | [] => []
  | '&' :: 'a' :: 'm' :: 'p' :: ';' :: rest => '&' :: unescape rest
  | '&' :: 'l' :: 't' :: ';' :: rest => '<' :: unescape rest
  | '&' :: 'g' :: 't' :: ';' :: rest => '>' :: unescape rest
  | '&' :: 'q' :: 'u' :: 'o' :: 't' :: ';' :: rest => '"' :: unescape rest
  | '&' :: 'a' :: 'p' :: 'o' :: 's' :: ';' :: rest => '\'' :: unescape rest
  | c :: rest => c :: unescape rest

theorem unescape_plain (c : Char) (rest : List Char) (plain : c ≠ '&') : unescape (c :: rest) = c :: unescape rest := by
  rw [unescape]
  all_goals
    intros
    exact absurd (by assumption) plain

end OriginCache.Foundation.Markup
