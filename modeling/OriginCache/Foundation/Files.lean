import Mathlib.Data.UInt
import Mathlib.Logic.Function.Basic
import OriginCache.Foundation.Tables

/-! A flat file system. Paths name inodes and an open file is its inode, so that
a rename or an unlink leaves the files that are open alone, and a create truncates
the inode its path names already. -/

namespace OriginCache.Foundation.Files
open Foundation.Tables

structure Disk (π β : Type*) where
  nodes : Table π Nat
  contents : Nat → List β
  next : Nat

section
variable {π β : Type*} [DecidableEq π]

def Disk.empty : Disk π β := ⟨∅, fun _ => [], 0⟩

def Disk.read (disk : Disk π β) (path : π) : Option (List β) :=
  (disk.nodes.lookup path).map disk.contents

/-- The inode a create of this path opens. -/
def Disk.nodeFor (disk : Disk π β) (path : π) : Nat := (disk.nodes.lookup path).getD disk.next

def Disk.create (disk : Disk π β) (path : π) : Disk π β :=
  ⟨disk.nodes.insert path (disk.nodeFor path), Function.update disk.contents (disk.nodeFor path) [],
    max disk.next (disk.nodeFor path + 1)⟩

/-- The bytes after a write at an offset; a gap before it is filled. -/
def overlay [Zero β] (old : List β) (offset : Nat) (data : List β) : List β :=
  (old ++ List.replicate (offset - old.length) 0).take offset ++ data ++ old.drop (offset + data.length)

def Disk.write [Zero β] (disk : Disk π β) (inode offset : Nat) (data : List β) : Disk π β :=
  { disk with
    contents := Function.update disk.contents inode (overlay (disk.contents inode) offset data) }

def Disk.rename (disk : Disk π β) (old new : π) : Option (Disk π β) :=
  (disk.nodes.lookup old).map fun inode =>
    { disk with nodes := (disk.nodes.erase old).insert new inode }

def Disk.unlink (disk : Disk π β) (path : π) : Disk π β :=
  { disk with nodes := disk.nodes.erase path }

/-- Inodes are below the next one, and each has one name at most. -/
structure Disk.Tidy (disk : Disk π β) : Prop where
  below : ∀ path inode, disk.nodes.lookup path = some inode → inode < disk.next
  single : ∀ path other inode, disk.nodes.lookup path = some inode →
    disk.nodes.lookup other = some inode → path = other

theorem overlay_end [Zero β] (old data : List β) : overlay old old.length data = old ++ data := by
  unfold overlay
  rw [Nat.sub_self, List.replicate_zero, List.append_nil, List.take_length,
    List.drop_eq_nil_of_le (Nat.le_add_right _ _), List.append_nil]

theorem tidy_empty : (Disk.empty : Disk π β).Tidy :=
  ⟨fun _ _ found => absurd found (by simp [Disk.empty]), fun _ _ _ found => absurd found (by simp [Disk.empty])⟩

theorem nodeFor_lt (disk : Disk π β) (path : π) : disk.nodeFor path < (disk.create path).next :=
  Nat.lt_of_lt_of_le (Nat.lt_succ_self _) (Nat.le_max_right _ _)

theorem next_le_create (disk : Disk π β) (path : π) : disk.next ≤ (disk.create path).next :=
  Nat.le_max_left _ _

theorem lookup_create (disk : Disk π β) (path : π) :
    (disk.create path).nodes.lookup path = some (disk.nodeFor path) := AList.lookup_insert _

theorem lookup_create_ne (disk : Disk π β) {path other : π} (differs : other ≠ path) :
    (disk.create path).nodes.lookup other = disk.nodes.lookup other := AList.lookup_insert_ne differs

/-- A name of the inode that a create opens was the created path. -/
theorem Disk.Tidy.nodeFor_eq {disk : Disk π β} (tidy : disk.Tidy) (path other : π)
    (found : disk.nodes.lookup other = some (disk.nodeFor path)) : other = path := by
  unfold nodeFor at found
  cases present : disk.nodes.lookup path with
  | some inode =>
    rw [present] at found
    exact tidy.single other path inode found present
  | none =>
    rw [present] at found
    exact absurd (tidy.below other disk.next found) (Nat.lt_irrefl _)

theorem Disk.Tidy.create {disk : Disk π β} (tidy : disk.Tidy) (path : π) : (disk.create path).Tidy := by
  refine ⟨fun other inode found => ?_, fun first second inode found same => ?_⟩
  · by_cases it : other = path
    · rw [it, lookup_create] at found
      cases found
      exact nodeFor_lt disk path
    · rw [lookup_create_ne disk it] at found
      exact Nat.lt_of_lt_of_le (tidy.below other inode found) (next_le_create disk path)
  · by_cases it : first = path
    · by_cases too : second = path
      · exact it.trans too.symm
      · rw [it, lookup_create] at found
        cases found
        rw [lookup_create_ne disk too] at same
        exact it.trans (tidy.nodeFor_eq path second same).symm
    · rw [lookup_create_ne disk it] at found
      by_cases too : second = path
      · rw [too, lookup_create] at same
        cases same
        exact (tidy.nodeFor_eq path first found).trans too.symm
      · rw [lookup_create_ne disk too] at same
        exact tidy.single first second inode found same

theorem Disk.Tidy.write [Zero β] {disk : Disk π β} (tidy : disk.Tidy) (inode offset : Nat)
    (data : List β) : (disk.write inode offset data).Tidy := ⟨tidy.below, tidy.single⟩

/-- Where a name comes from after a rename. -/
theorem lookup_rename (disk after : Disk π β) (old new : π) (inode : Nat)
    (found : disk.nodes.lookup old = some inode) (moved : disk.rename old new = some after)
    (path : π) (target : Nat) (named : after.nodes.lookup path = some target) :
    (path = new ∧ target = inode) ∨ (path ≠ new ∧ path ≠ old ∧ disk.nodes.lookup path = some target) := by
  rw [Disk.rename, found] at moved
  cases moved
  cases lookup_insert_some (disk.nodes.erase old) new path inode target named with
  | inl arrived => exact .inl arrived
  | inr stayed => exact .inr ⟨stayed.1, lookup_erase_some disk.nodes old path target stayed.2⟩

theorem rename_contents (disk after : Disk π β) (old new : π) (moved : disk.rename old new = some after) :
    after.contents = disk.contents ∧ after.next = disk.next := by
  obtain ⟨inode, _, same⟩ := Option.map_eq_some_iff.mp moved
  rw [← same]
  exact ⟨rfl, rfl⟩

theorem Disk.Tidy.rename {disk after : Disk π β} (tidy : disk.Tidy) (old new : π)
    (moved : disk.rename old new = some after) : after.Tidy := by
  obtain ⟨inode, found, _⟩ := Option.map_eq_some_iff.mp moved
  have next := (rename_contents disk after old new moved).2
  refine ⟨fun path target named => ?_, fun first second target named same => ?_⟩
  · rw [next]
    cases lookup_rename disk after old new inode found moved path target named with
    | inl arrived => exact arrived.2 ▸ tidy.below old inode found
    | inr stayed => exact tidy.below path target stayed.2.2
  · cases lookup_rename disk after old new inode found moved first target named with
    | inl arrived =>
      cases lookup_rename disk after old new inode found moved second target same with
      | inl too => exact arrived.1.trans too.1.symm
      | inr stayed => exact absurd (tidy.single second old inode (arrived.2 ▸ stayed.2.2) found) stayed.2.1
    | inr stayed =>
      cases lookup_rename disk after old new inode found moved second target same with
      | inl arrived => exact absurd (tidy.single first old inode (arrived.2 ▸ stayed.2.2) found) stayed.2.1
      | inr too => exact tidy.single first second target stayed.2.2 too.2.2

theorem Disk.Tidy.unlink {disk : Disk π β} (tidy : disk.Tidy) (path : π) : (disk.unlink path).Tidy := by
  refine ⟨fun other inode named => ?_, fun first second inode named same => ?_⟩
  · exact tidy.below other inode (lookup_erase_some disk.nodes path other inode named).2
  · exact tidy.single first second inode (lookup_erase_some disk.nodes path first inode named).2
      (lookup_erase_some disk.nodes path second inode same).2

end

end OriginCache.Foundation.Files
