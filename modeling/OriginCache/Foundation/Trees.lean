import Mathlib.Algebra.BigOperators.Group.List.Basic
import Mathlib.Algebra.Ring.Nat
import OriginCache.Foundation.Splits

/-! Directory trees. A tree is what one directory holds, in some order; a file is named
by its path, each directory's name closed by a separator. -/

namespace OriginCache.Foundation.Trees
open Splits

inductive Tree (α μ : Type)
  | nil
  | file (name : List α) (info : μ) (rest : Tree α μ)
  | dir (name : List α) (inside rest : Tree α μ)

section Shape
variable {α μ : Type}

@[grind =] def Tree.names : Tree α μ → List (List α)
  | .nil => []
  | .file name _ rest => name :: rest.names
  | .dir name _ rest => name :: rest.names

@[grind =] def Tree.files : Tree α μ → List (List α × μ)
  | .nil => []
  | .file name info rest => (name, info) :: rest.files
  | .dir _ _ rest => rest.files

@[grind =] def Tree.subdirs : Tree α μ → List (List α × Tree α μ)
  | .nil => []
  | .file _ _ rest => rest.subdirs
  | .dir name inside rest => (name, inside) :: rest.subdirs

/-- How far the deepest directory is from the top. -/
@[grind =] def Tree.depth : Tree α μ → Nat
  | .nil => 0
  | .file _ _ rest => rest.depth
  | .dir _ inside rest => max (inside.depth + 1) rest.depth

@[grind =] def Tree.dirs : Tree α μ → Nat
  | .nil => 0
  | .file _ _ rest => rest.dirs
  | .dir _ inside rest => inside.dirs + 1 + rest.dirs

/-- Names are nonempty, free of separators and not used twice in one directory. -/
@[grind =] def Tree.Named (sep : α) : Tree α μ → Prop
  | .nil => True
  | .file name _ rest => name ≠ [] ∧ sep ∉ name ∧ name ∉ rest.names ∧ rest.Named sep
  | .dir name inside rest => name ≠ [] ∧ sep ∉ name ∧ name ∉ rest.names ∧ inside.Named sep ∧ rest.Named sep

/-- Every file under its path, behind the path of the tree itself. -/
@[grind =] def Tree.entries (sep : α) (path : List α) : Tree α μ → List (List α × μ)
  | .nil => []
  | .file name info rest => (path ++ name, info) :: rest.entries sep path
  | .dir name inside rest => inside.entries sep (path ++ name ++ [sep]) ++ rest.entries sep path

def Tree.direct (path : List α) (tree : Tree α μ) : List (List α × μ) :=
  tree.files.map fun file => (path ++ file.1, file.2)

/-- The files below, the directory found last first, its own files before those below it. -/
@[grind =] def Tree.deeper (sep : α) (path : List α) : Tree α μ → List (List α × μ)
  | .nil => []
  | .file _ _ rest => rest.deeper sep path
  | .dir name inside rest =>
      rest.deeper sep path ++ (inside.direct (path ++ name ++ [sep]) ++ inside.deeper sep (path ++ name ++ [sep]))

/-- The files in the order of a walk that keeps the directories it has yet to visit on
a stack. -/
def Tree.visited (sep : α) (path : List α) (tree : Tree α μ) : List (List α × μ) :=
  tree.direct path ++ tree.deeper sep path

theorem deeper_subdirs (sep : α) (path : List α) (tree : Tree α μ) : tree.deeper sep path =
    tree.subdirs.reverse.flatMap fun dir => dir.2.visited sep (path ++ dir.1 ++ [sep]) := by
  induction tree with
  | nil => rfl
  | file name info rest ih => exact ih
  | dir name inside rest _ ih =>
    rw [Tree.deeper, ih, Tree.subdirs, List.reverse_cons, List.flatMap_append, List.flatMap_singleton]
    rfl

/-- The walk visits every file once. -/
theorem visited_perm (sep : α) (path : List α) (tree : Tree α μ) :
    (tree.visited sep path).Perm (tree.entries sep path) := by
  induction tree generalizing path with
  | nil => exact List.Perm.nil
  | file name info rest ih => exact (ih path).cons _
  | dir name inside rest inner ih =>
    have here := inner (path ++ name ++ [sep])
    have others := ih path
    calc (Tree.dir name inside rest).visited sep path
        = rest.visited sep path ++ inside.visited sep (path ++ name ++ [sep]) :=
          (List.append_assoc (rest.direct path) (rest.deeper sep path) _).symm
      _ |>.Perm (inside.visited sep (path ++ name ++ [sep]) ++ rest.visited sep path) := List.perm_append_comm
      _ |>.Perm (inside.entries sep (path ++ name ++ [sep]) ++ rest.entries sep path) := here.append others

theorem dirs_subdirs (tree : Tree α μ) : tree.dirs = (tree.subdirs.map fun dir => dir.2.dirs + 1).sum := by
  induction tree with
  | nil => rfl
  | file name info rest ih => exact ih
  | dir name inside rest _ ih => rw [Tree.dirs, Tree.subdirs, List.map_cons, List.sum_cons, ← ih]

theorem depth_subdir (tree : Tree α μ) (dir : List α × Tree α μ) (member : dir ∈ tree.subdirs) :
    dir.2.depth + 1 ≤ tree.depth := by
  induction tree with
  | nil => cases member
  | file name info rest ih => exact ih member
  | dir name inside rest _ ih =>
    rw [Tree.depth]
    cases List.mem_cons.mp member with
    | inl same =>
      subst same
      exact le_max_left _ _
    | inr later => exact le_trans (ih later) (le_max_right _ _)

theorem subdir_name (tree : Tree α μ) (dir : List α × Tree α μ) (member : dir ∈ tree.subdirs) : dir.1 ∈ tree.names := by
  induction tree with
  | nil => cases member
  | file name info rest ih => exact List.mem_cons_of_mem name (ih member)
  | dir name inside rest _ ih =>
    cases List.mem_cons.mp member with
    | inl same =>
      subst same
      exact List.mem_cons_self
    | inr later => exact List.mem_cons_of_mem name (ih later)

theorem entries_begin (sep : α) (path : List α) (tree : Tree α μ) (entry : List α × μ)
    (member : entry ∈ tree.entries sep path) : path <+: entry.1 := by
  induction tree generalizing path with
  | nil => cases member
  | file name info rest ih =>
    cases List.mem_cons.mp member with
    | inl same =>
      subst same
      exact List.prefix_append path name
    | inr later => exact ih path later
  | dir name inside rest inner ih =>
    cases List.mem_append.mp member with
    | inl here =>
      have longer := inner (path ++ name ++ [sep]) here
      rw [List.append_assoc] at longer
      exact (List.prefix_append path _).trans longer
    | inr later => exact ih path later

end Shape

/-! Finding a directory. -/

section Find
variable {α μ : Type} [DecidableEq α]

@[grind =] def Tree.find : Tree α μ → List (List α) → Option (Tree α μ)
  | tree, [] => some tree
  | .nil, _ :: _ => none
  | .file _ _ rest, name :: later => rest.find (name :: later)
  | .dir name inside rest, wanted :: later =>
      if name = wanted then inside.find later else rest.find (wanted :: later)

/-- The path of a directory. -/
def folderOf (sep : α) (names : List (List α)) : List α := names.flatMap fun name => name ++ [sep]

def segments (sep : α) (folder : List α) : List (List α) := (folder.splitOn sep).dropLast

omit [DecidableEq α] in
theorem folderOf_append (sep : α) (names more : List (List α)) :
    folderOf sep (names ++ more) = folderOf sep names ++ folderOf sep more := List.flatMap_append

omit [DecidableEq α] in
theorem folderOf_cons (sep : α) (name : List α) (names : List (List α)) :
    folderOf sep (name :: names) = name ++ [sep] ++ folderOf sep names := List.flatMap_cons

omit [DecidableEq α] in
theorem intercalate_folderOf (sep : α) (names : List (List α)) (last : List α) :
    [sep].intercalate (names ++ [last]) = folderOf sep names ++ last := by
  induction names with
  | nil => exact List.intercalate_singleton
  | cons name names ih =>
    rw [List.cons_append, List.intercalate_cons_of_ne_nil (by simp), ih, folderOf_cons, List.append_assoc,
      List.append_assoc, List.append_assoc]

theorem segments_free (sep : α) (folder : List α) (name : List α) (member : name ∈ segments sep folder) : sep ∉ name := by
  intro inside
  have free := splitOnP_free (· == sep) folder name (List.dropLast_subset _ member) sep inside
  rw [beq_self_eq_true] at free
  cases free

/-- A path that is empty or ends in a separator is a directory's. -/
theorem folderOf_segments (sep : α) (folder : List α) (closed : folder = [] ∨ folder.getLast? = some sep) :
    folderOf sep (segments sep folder) = folder := by
  have parts : folder.splitOn sep ≠ [] := List.splitOnP_ne_nil _ _
  have split := List.dropLast_append_getLast parts
  have last : sep ∉ (folder.splitOn sep).getLast parts := by
    intro inside
    have free := splitOnP_free (· == sep) folder _ (List.getLast_mem parts) sep inside
    rw [beq_self_eq_true] at free
    cases free
  have whole : [sep].intercalate (folder.splitOn sep) = folder := List.intercalate_splitOn sep
  rw [← split, intercalate_folderOf] at whole
  change folderOf sep (segments sep folder) ++ _ = folder at whole
  cases tail : (folder.splitOn sep).getLast parts using List.reverseRecOn with
  | nil =>
    rw [tail, List.append_nil] at whole
    exact whole
  | append_singleton front c =>
    rw [tail] at whole last
    cases closed with
    | inl empty =>
      rw [empty] at whole
      simp at whole
    | inr ends =>
      rw [← whole, ← List.append_assoc, List.getLast?_concat] at ends
      cases ends
      exact absurd (by simp) last

theorem segments_folderOf (sep : α) (names : List (List α)) (free : ∀ name ∈ names, sep ∉ name) :
    segments sep (folderOf sep names) = names := by
  have whole := intercalate_folderOf sep names []
  have parts : ∀ part ∈ names ++ [[]], sep ∉ part := by
    intro part member
    cases List.mem_append.mp member with
    | inl inside => exact free part inside
    | inr last => simp at last; simp [last]
  rw [List.append_nil] at whole
  rw [segments, ← whole, List.splitOn_intercalate sep parts (by simp), List.dropLast_concat]

theorem find_absent (tree : Tree α μ) (name : List α) (later : List (List α)) (absent : name ∉ tree.names) :
    tree.find (name :: later) = none := by
  induction tree with
  | nil => rfl
  | file other info rest ih => exact ih fun member => absent (List.mem_cons_of_mem other member)
  | dir other inside rest _ ih =>
    have differs : other ≠ name := fun same => absent (same ▸ List.mem_cons_self)
    rw [Tree.find, if_neg differs]
    exact ih fun member => absent (List.mem_cons_of_mem other member)

theorem find_append (tree : Tree α μ) (names more : List (List α)) :
    tree.find (names ++ more) = (tree.find names).bind (·.find more) := by
  induction tree generalizing names with
  | nil =>
    cases names with
    | nil => rw [List.nil_append, Tree.find]; rfl
    | cons name names => rfl
  | file other info rest ih =>
    cases names with
    | nil => rw [List.nil_append, Tree.find]; rfl
    | cons name names => exact ih (name :: names)
  | dir other inside rest inner ih =>
    cases names with
    | nil => rw [List.nil_append, Tree.find]; rfl
    | cons name names =>
      rw [List.cons_append, Tree.find, Tree.find]
      split_ifs with same
      · exact inner names
      · exact ih (name :: names)

/-- A directory's subdirectory is found under its name. -/
theorem find_subdir (sep : α) (tree : Tree α μ) (named : tree.Named sep) (dir : List α × Tree α μ)
    (member : dir ∈ tree.subdirs) : tree.find [dir.1] = some dir.2 := by
  induction tree with
  | nil => cases member
  | file name info rest ih => exact ih named.2.2.2 member
  | dir name inside rest _ ih =>
    cases List.mem_cons.mp member with
    | inl same =>
      subst same
      rw [Tree.find, if_pos rfl, Tree.find]
    | inr later =>
      have differs : name ≠ dir.1 := by
        intro same
        exact named.2.2.1 (same ▸ subdir_name rest dir later)
      rw [Tree.find, if_neg differs]
      exact ih named.2.2.2.2 later

theorem find_named (sep : α) (tree : Tree α μ) (named : tree.Named sep) (names : List (List α)) (found : Tree α μ)
    (here : tree.find names = some found) : found.Named sep := by
  induction tree generalizing names with
  | nil =>
    cases names with
    | nil =>
      cases here
      exact named
    | cons name names => cases here
  | file other info rest ih =>
    cases names with
    | nil =>
      cases here
      exact named
    | cons name names => exact ih named.2.2.2 (name :: names) here
  | dir other inside rest inner ih =>
    cases names with
    | nil =>
      cases here
      exact named
    | cons name names =>
      rw [Tree.find] at here
      split_ifs at here with same
      · exact inner named.2.2.2.1 names here
      · exact ih named.2.2.2.2 (name :: names) here

/-- A path that is found is made of names. -/
theorem find_names (sep : α) (tree : Tree α μ) (named : tree.Named sep) (names : List (List α)) (found : Tree α μ)
    (here : tree.find names = some found) : ∀ name ∈ names, name ≠ [] ∧ sep ∉ name := by
  induction tree generalizing names with
  | nil =>
    cases names with
    | nil => exact fun name member => by cases member
    | cons name names => cases here
  | file other info rest ih =>
    cases names with
    | nil => exact fun name member => by cases member
    | cons name names => exact ih named.2.2.2 (name :: names) here
  | dir other inside rest inner ih =>
    cases names with
    | nil => exact fun name member => by cases member
    | cons wanted names =>
      rw [Tree.find] at here
      split_ifs at here with same
      · have later := inner named.2.2.2.1 names here
        intro name member
        cases List.mem_cons.mp member with
        | inl first =>
          rw [first, ← same]
          exact ⟨named.1, named.2.1⟩
        | inr further => exact later name further
      · exact ih named.2.2.2.2 (wanted :: names) here

theorem find_depth (tree : Tree α μ) (names : List (List α)) (found : Tree α μ)
    (here : tree.find names = some found) : found.depth ≤ tree.depth := by
  induction tree generalizing names with
  | nil =>
    cases names with
    | nil =>
      cases here
      exact le_refl _
    | cons name names => cases here
  | file other info rest ih =>
    cases names with
    | nil =>
      cases here
      exact le_refl _
    | cons name names => exact ih (name :: names) here
  | dir other inside rest inner ih =>
    cases names with
    | nil =>
      cases here
      exact le_refl _
    | cons name names =>
      rw [Tree.find] at here
      rw [Tree.depth]
      split_ifs at here with same
      · exact le_trans (inner names here) (le_trans (Nat.le_succ _) (le_max_left _ _))
      · exact le_trans (ih (name :: names) here) (le_max_right _ _)

/-- A path through another directory is no path through this one. -/
theorem prefix_other (sep : α) (path wanted name rest tail : List α) (free : sep ∉ wanted) (free' : sep ∉ name)
    (begins : path ++ (wanted ++ [sep] ++ rest) <+: path ++ name ++ [sep] ++ tail) : name = wanted := by
  obtain ⟨more, same⟩ := begins
  have cut : wanted ++ sep :: (rest ++ more) = name ++ sep :: tail := by
    have same' : path ++ (wanted ++ sep :: (rest ++ more)) = path ++ (name ++ sep :: tail) := by simpa using same
    exact List.append_cancel_left same'
  exact (append_cons_inj sep cut free free').1.symm

/-- The files whose paths begin with a directory's path are the directory's. -/
theorem filter_entries (sep : α) (names : List (List α)) (path : List α) (tree : Tree α μ) (named : tree.Named sep)
    (free : ∀ name ∈ names, sep ∉ name) :
    ((tree.entries sep path).filter fun e => (path ++ folderOf sep names).isPrefixOf e.1) =
      ((tree.find names).map fun found => found.entries sep (path ++ folderOf sep names)).getD [] := by
  induction names generalizing path tree with
  | nil =>
    have all : (tree.entries sep path).filter (fun e => (path ++ folderOf sep []).isPrefixOf e.1) =
        tree.entries sep path := by
      apply List.filter_eq_self.mpr
      intro entry member
      apply List.isPrefixOf_iff_prefix.mpr
      exact (List.append_nil path).symm ▸ entries_begin sep path tree entry member
    rw [all, Tree.find, Option.map_some, Option.getD_some, folderOf, List.flatMap_nil, List.append_nil]
  | cons wanted names outer =>
    have wantedFree := free wanted List.mem_cons_self
    rw [folderOf_cons]
    induction tree with
    | nil => rfl
    | file name info rest ih =>
      have other : (path ++ (wanted ++ [sep] ++ folderOf sep names)).isPrefixOf (path ++ name) = false := by
        apply Bool.eq_false_iff.mpr
        intro begins
        obtain ⟨more, same⟩ := List.isPrefixOf_iff_prefix.mp begins
        rw [List.append_assoc] at same
        exact named.2.1 (List.append_cancel_left same ▸ by simp)
      rw [Tree.entries, List.filter_cons_of_neg (by rw [other]; exact Bool.false_ne_true), ih named.2.2.2]
      rfl
    | dir name inside rest _ ih =>
      rw [Tree.entries, List.filter_append, ih named.2.2.2.2, Tree.find]
      by_cases same : name = wanted
      · subst same
        have inner := outer (path ++ name ++ [sep]) inside named.2.2.2.1 fun other member =>
          free other (List.mem_cons_of_mem name member)
        have paths : path ++ (name ++ [sep] ++ folderOf sep names) = path ++ name ++ [sep] ++ folderOf sep names := by
          simp
        rw [if_pos rfl, find_absent rest name names named.2.2.1, paths, inner]
        exact List.append_nil _
      · have nothing : (inside.entries sep (path ++ name ++ [sep])).filter
            (fun e => (path ++ (wanted ++ [sep] ++ folderOf sep names)).isPrefixOf e.1) = [] := by
          apply List.filter_eq_nil_iff.mpr
          intro entry member begins
          obtain ⟨tail, whole⟩ := entries_begin sep _ inside entry member
          have through := List.isPrefixOf_iff_prefix.mp begins
          rw [← whole] at through
          exact same (prefix_other sep path wanted name _ tail wantedFree named.2.1 through)
        rw [nothing, if_neg same]
        exact List.nil_append _

/-- A path ends with a name, or goes on behind a separator. -/
def Onward (sep : α) (tail : List α) : Prop := tail = [] ∨ ∃ more, tail = sep :: more

theorem takeWhile_name (sep : α) (name tail : List α) (free : sep ∉ name) (onward : Onward sep tail) :
    (name ++ tail).takeWhile (· ≠ sep) = name := by
  have whole : ∀ c ∈ name, decide (c ≠ sep) = true := fun c member =>
    decide_eq_true fun same => free (same ▸ member)
  rw [List.takeWhile_append_of_pos whole]
  rcases onward with rfl | ⟨more, rfl⟩
  · exact List.append_nil name
  · rw [List.takeWhile_cons_of_neg (by simp), List.append_nil]

omit [DecidableEq α] in
theorem named_free (sep : α) (tree : Tree α μ) (named : tree.Named sep) (name : List α) (member : name ∈ tree.names) :
    sep ∉ name := by
  induction tree with
  | nil => cases member
  | file other info rest ih =>
    cases List.mem_cons.mp member with
    | inl same => exact same ▸ named.2.1
    | inr later => exact ih named.2.2.2 later
  | dir other inside rest _ ih =>
    cases List.mem_cons.mp member with
    | inl same => exact same ▸ named.2.1
    | inr later => exact ih named.2.2.2.2 later

omit [DecidableEq α] in
theorem entries_head (sep : α) (path : List α) (tree : Tree α μ) (entry : List α × μ)
    (member : entry ∈ tree.entries sep path) :
    ∃ name ∈ tree.names, ∃ tail, Onward sep tail ∧ entry.1 = path ++ (name ++ tail) := by
  induction tree with
  | nil => cases member
  | file name info rest ih =>
    cases List.mem_cons.mp member with
    | inl same => exact ⟨name, List.mem_cons_self, [], Or.inl rfl, by rw [same, List.append_nil]⟩
    | inr later =>
      obtain ⟨other, present, shape⟩ := ih later
      exact ⟨other, List.mem_cons_of_mem name present, shape⟩
  | dir name inside rest _ ih =>
    cases List.mem_append.mp member with
    | inl here =>
      obtain ⟨more, whole⟩ := entries_begin sep _ inside entry here
      refine ⟨name, List.mem_cons_self, sep :: more, Or.inr ⟨more, rfl⟩, ?_⟩
      rw [← whole, List.append_assoc, List.append_assoc]
      rfl
    | inr later =>
      obtain ⟨other, present, shape⟩ := ih later
      exact ⟨other, List.mem_cons_of_mem name present, shape⟩

/-- A path that goes through one name leads to no file under another. -/
theorem entries_apart (sep : α) (path : List α) (tree : Tree α μ) (named : tree.Named sep) (name tail : List α)
    (free : sep ∉ name) (absent : name ∉ tree.names) (onward : Onward sep tail) :
    path ++ (name ++ tail) ∉ (tree.entries sep path).map Prod.fst := by
  intro member
  obtain ⟨entry, inside, same⟩ := List.mem_map.mp member
  obtain ⟨other, present, tail', onward', whole⟩ := entries_head sep path tree entry inside
  rw [whole] at same
  have equal := List.append_cancel_left same
  have first := takeWhile_name sep name tail free onward
  have second := takeWhile_name sep other tail' (named_free sep tree named other present) onward'
  rw [← equal, second] at first
  exact absent (first ▸ present)

/-- No two files have one path. -/
theorem entries_nodup (sep : α) (path : List α) (tree : Tree α μ) (named : tree.Named sep) :
    ((tree.entries sep path).map Prod.fst).Nodup := by
  induction tree generalizing path with
  | nil => exact List.nodup_nil
  | file name info rest ih =>
    rw [Tree.entries, List.map_cons, List.nodup_cons]
    have apart := entries_apart sep path rest named.2.2.2 name [] named.2.1 named.2.2.1 (Or.inl rfl)
    rw [List.append_nil] at apart
    exact ⟨apart, ih path named.2.2.2⟩
  | dir name inside rest inner ih =>
    rw [Tree.entries, List.map_append, List.nodup_append]
    refine ⟨inner _ named.2.2.2.1, ih path named.2.2.2.2, fun key here other there same => ?_⟩
    subst same
    obtain ⟨entry, member, rfl⟩ := List.mem_map.mp here
    obtain ⟨more, whole⟩ := entries_begin sep _ inside entry member
    have apart := entries_apart sep path rest named.2.2.2.2 name (sep :: more) named.2.1 named.2.2.1 (Or.inr ⟨more, rfl⟩)
    apply apart
    rw [← whole, List.append_assoc, List.append_assoc] at there
    exact there

end Find

end OriginCache.Foundation.Trees
