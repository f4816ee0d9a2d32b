import Mathlib.Data.Nat.Bitwise
import OriginCache.Request.Sigv4

/-! Where the credential table comes from at boot: a file that only its owner can read,
or the two environment variables. A file that is named is never passed over. -/

namespace OriginCache.Request.Credentials
open Foundation.Tables
open Cache.SegName (Text)
open Sigv4 (CredentialEntry CredentialStore trim)

structure FileRow where
  id : Text
  entry : CredentialEntry
deriving DecidableEq, Repr

/-- Its mode, and its text when it can be read. -/
structure CredentialsFile where
  mode : Nat
  text : Option Text
deriving DecidableEq, Repr

/-- What the process finds: the files, the environment and the JSON parser. -/
structure Host where
  file : Text → Option CredentialsFile
  accessKeyId : Option Text
  secretAccessKey : Option Text
  parse : Text → Option (List FileRow)

inductive CredentialsError
  | unreadable | tooOpen (mode : Nat) | unparsed | empty | emptyRow | repeated
deriving DecidableEq, Repr

section Loading
variable (host : Host)

def fromEnv : Option CredentialStore :=
  match host.accessKeyId, host.secretAccessKey with
  | some id, some secret =>
      if id = [] ∨ secret = [] then none else some (AList.insert id ⟨secret, none, none, none⟩ ∅)
  | _, _ => none

@[grind =] def insertRows : List FileRow → CredentialStore → Except CredentialsError CredentialStore
  | [], entries => .ok entries
  | row :: rows, entries =>
      if row.id = [] ∨ row.entry.secret = [] then .error .emptyRow
      else if row.id ∈ entries then .error .repeated
      else insertRows rows (entries.insert row.id row.entry)

/-- The permissions of the group and of the others. -/
def widelyOpen (mode : Nat) : Bool := mode &&& 0o077 ≠ 0

def fromFile (path : Text) : Except CredentialsError CredentialStore :=
  match host.file path with
  | none => .error .unreadable
  | some file =>
      if widelyOpen file.mode then .error (.tooOpen (file.mode &&& 0o7777))
      else
        match file.text with
        | none => .error .unreadable
        | some text =>
            match host.parse text with
            | none => .error .unparsed
            | some rows => if rows = [] then .error .empty else insertRows rows ∅

def load (path : Option Text) : Except CredentialsError (Option CredentialStore) :=
  match path with
  | some p => if trim p ≠ [] then (fromFile host p).map some else .ok (fromEnv host)
  | none => .ok (fromEnv host)

end Loading

/-- A row that can be a tenant's. -/
def FileRow.Filled (row : FileRow) : Prop := row.id ≠ [] ∧ row.entry.secret ≠ []

/-- The rows of a file that is a credential table. -/
structure Tenants (rows : List FileRow) : Prop where
  filled : ∀ row ∈ rows, row.Filled
  distinct : (rows.map FileRow.id).Nodup

/-- What a table holds when the rows have been put on top of what was there. -/
theorem insertRows_ok (rows : List FileRow) (entries store : CredentialStore)
    (loaded : insertRows rows entries = .ok store) :
    Tenants rows ∧ (∀ row ∈ rows, row.id ∉ entries) ∧
      ∀ id e, store.lookup id = some e ↔ entries.lookup id = some e ∨ ⟨id, e⟩ ∈ rows := by
  induction rows generalizing entries with
  | nil =>
    cases loaded
    refine ⟨⟨List.forall_mem_nil _, List.nodup_nil⟩, List.forall_mem_nil _, fun id e => ?_⟩
    simp only [List.not_mem_nil, or_false]
  | cons row rows ih =>
    rw [insertRows] at loaded
    split_ifs at loaded with bare known
    rw [not_or] at bare
    obtain ⟨tenants, fresh, holds⟩ := ih _ loaded
    have other (later : FileRow) (member : later ∈ rows) : later.id ≠ row.id ∧ later.id ∉ entries := by
      have free := fresh later member
      rw [AList.mem_insert, not_or] at free
      exact free
    refine ⟨⟨?_, ?_⟩, ?_, ?_⟩
    · intro each member
      rcases List.mem_cons.mp member with rfl | later
      · exact bare
      · exact tenants.filled each later
    · rw [List.map_cons, List.nodup_cons]
      refine ⟨?_, tenants.distinct⟩
      intro twice
      obtain ⟨later, member, same⟩ := List.mem_map.mp twice
      exact (other later member).1 same
    · intro each member
      rcases List.mem_cons.mp member with rfl | later
      · exact known
      · exact (other each later).2
    · intro id e
      rw [holds]
      by_cases own : id = row.id
      · subst own
        have absent : entries.lookup row.id = none := AList.lookup_eq_none.mpr known
        have once : (⟨row.id, e⟩ : FileRow) ∉ rows := fun member => (other _ member).1 rfl
        rw [AList.lookup_insert, absent, List.mem_cons]
        constructor
        · rintro (same | later)
          · cases same
            exact .inr (.inl rfl)
          · exact absurd later once
        · rintro (none_ | same | later)
          · cases none_
          · exact .inl (congrArg (fun each => some each.entry) same.symm)
          · exact absurd later once
      · rw [AList.lookup_insert_ne own, List.mem_cons]
        constructor
        · exact Or.imp_right .inr
        · rintro (before | same | later)
          · exact .inl before
          · exact absurd (congrArg FileRow.id same) own
          · exact .inr later

theorem insertRows_loads (rows : List FileRow) (entries : CredentialStore) (tenants : Tenants rows)
    (fresh : ∀ row ∈ rows, row.id ∉ entries) : ∃ store, insertRows rows entries = .ok store := by
  induction rows generalizing entries with
  | nil => exact ⟨entries, rfl⟩
  | cons row rows ih =>
    have filled := tenants.filled row List.mem_cons_self
    have distinct := tenants.distinct
    rw [List.map_cons, List.nodup_cons] at distinct
    have bare : ¬ (row.id = [] ∨ row.entry.secret = []) := fun either => either.elim filled.1 filled.2
    rw [insertRows, if_neg bare, if_neg (fresh row List.mem_cons_self)]
    apply ih
    · exact ⟨fun each member => tenants.filled each (List.mem_cons_of_mem row member), distinct.2⟩
    · intro each member
      rw [AList.mem_insert, not_or]
      refine ⟨fun same => distinct.1 (same ▸ List.mem_map_of_mem member), ?_⟩
      exact fresh each (List.mem_cons_of_mem row member)

/-- The rows of a file that may be used. -/
def Offers (host : Host) (path : Text) (rows : List FileRow) : Prop :=
  ∃ file text, host.file path = some file ∧ widelyOpen file.mode = false ∧ file.text = some text ∧
    host.parse text = some rows ∧ rows ≠ [] ∧ Tenants rows

theorem fromFile_ok (host : Host) (path : Text) (store : CredentialStore) (loaded : fromFile host path = .ok store) :
    ∃ rows, Offers host path rows ∧ ∀ id e, store.lookup id = some e ↔ ⟨id, e⟩ ∈ rows := by
  unfold fromFile at loaded
  cases there : host.file path with
  | none =>
    simp only [there] at loaded
    cases loaded
  | some file =>
    simp only [there] at loaded
    split_ifs at loaded with wide
    cases read : file.text with
    | none =>
      simp only [read] at loaded
      cases loaded
    | some text =>
      cases parsed : host.parse text with
      | none =>
        simp only [read, parsed] at loaded
        cases loaded
      | some rows =>
        simp only [read, parsed] at loaded
        split_ifs at loaded with none_
        obtain ⟨tenants, -, holds⟩ := insertRows_ok rows ∅ store loaded
        have closed := (Bool.not_eq_true _).mp wide
        refine ⟨rows, ⟨file, text, there, closed, read, parsed, none_, tenants⟩, fun id e => ?_⟩
        rw [holds, AList.lookup_empty]
        exact or_iff_right fun same => by cases same

theorem fromFile_loads (host : Host) (path : Text) (rows : List FileRow) (offers : Offers host path rows) :
    ∃ store, fromFile host path = .ok store := by
  obtain ⟨file, text, there, closed, read, parsed, some_, tenants⟩ := offers
  obtain ⟨store, loaded⟩ := insertRows_loads rows ∅ tenants fun row _ => AList.notMem_empty row.id
  refine ⟨store, ?_⟩
  simp only [fromFile, there, closed, read, parsed, some_, if_false, Bool.false_eq_true, loaded]

/-- A named file is the table, row for row, or the node does not start; and whatever the
table is from, it has a tenant, and none without an id or a secret. -/
theorem load_closed (host : Host) (path : Option Text) :
    (∀ p, path = some p → trim p ≠ [] →
      load host path ≠ .ok none ∧ ((∃ store, load host path = .ok (some store)) ↔ ∃ rows, Offers host p rows) ∧
      ∀ store, load host path = .ok (some store) →
        ∃ rows, Offers host p rows ∧ ∀ id e, store.lookup id = some e ↔ ⟨id, e⟩ ∈ rows) ∧
    ∀ store, load host path = .ok (some store) →
      (∃ id e, store.lookup id = some e) ∧ ∀ id e, store.lookup id = some e → id ≠ [] ∧ e.secret ≠ [] := by
  have named (p : Text) (some_ : trim p ≠ []) : load host (some p) = (fromFile host p).map some := if_pos some_
  have table (p : Text) (some_ : trim p ≠ []) (store : CredentialStore)
      (loaded : load host (some p) = .ok (some store)) :
      ∃ rows, Offers host p rows ∧ ∀ id e, store.lookup id = some e ↔ ⟨id, e⟩ ∈ rows := by
    rw [named p some_] at loaded
    cases read : fromFile host p with
    | error fault =>
      rw [read] at loaded
      cases loaded
    | ok found =>
      rw [read] at loaded
      cases loaded
      exact fromFile_ok host p store read
  constructor
  · rintro p rfl some_
    refine ⟨?_, ⟨?_, ?_⟩, table p some_⟩
    · rw [named p some_]
      cases fromFile host p with
      | error fault => exact fun same => by cases same
      | ok found => exact fun same => by cases same
    · rintro ⟨store, loaded⟩
      obtain ⟨rows, offers, -⟩ := table p some_ store loaded
      exact ⟨rows, offers⟩
    · rintro ⟨rows, offers⟩
      obtain ⟨store, read⟩ := fromFile_loads host p rows offers
      refine ⟨store, ?_⟩
      rw [named p some_, read]
      rfl
  · intro store loaded
    by_cases file : ∃ p, path = some p ∧ trim p ≠ []
    · obtain ⟨p, rfl, some_⟩ := file
      obtain ⟨rows, ⟨_, _, _, _, _, _, filled, tenants⟩, holds⟩ := table p some_ store loaded
      constructor
      · obtain ⟨row, member⟩ := List.exists_mem_of_ne_nil rows filled
        exact ⟨row.id, row.entry, (holds row.id row.entry).mpr member⟩
      · intro id e there
        exact tenants.filled _ ((holds id e).mp there)
    · have env : load host path = .ok (fromEnv host) := by
        cases path with
        | none => rfl
        | some p => exact if_neg fun some_ => file ⟨p, rfl, some_⟩
      rw [env] at loaded
      have found : fromEnv host = some store := Except.ok.inj loaded
      unfold fromEnv at found
      split at found
      · rename_i id secret _ _
        split_ifs at found with bare
        rw [not_or] at bare
        cases found
        refine ⟨⟨id, _, AList.lookup_insert _⟩, fun other e there => ?_⟩
        rcases lookup_insert_some _ _ _ _ _ there with ⟨rfl, rfl⟩ | ⟨_, before⟩
        · exact bare
        · rw [AList.lookup_empty] at before
          cases before
      · cases found

end OriginCache.Request.Credentials
