import OriginCache.Backend.OpenList

/-! A recursive listing and the pages made from it. A client follows the tokens of a V2
listing and, as nothing else names the place, the last key of a V1 page. -/

namespace OriginCache.Backend.Listings
open Foundation Foundation.Splits Foundation.Percent Foundation.Trees OpenList
open Request.Listing Request.Pages Request.Walks
open Cache.SegName (Text)
open Request.Canonical (NotAfter)
open Request.Sigv4 (Hashes)

/-- The request for the next page of a listing without a delimiter. -/
def nextRequest (params : ListParams) (page : Page) : ListParams :=
  if params.isV2 then { params with continuationToken := page.token }
  else { params with marker := page.items.contents.getLast?.map ListEntry.key }

/-- Page after page of one listing, until one is not truncated. -/
def browse (wire : Wire) (entries : List ListEntry) : Nat → ListParams → Option (List Page × Bool)
  | 0, _ => some ([], false)
  | n + 1, params => do
      let page ← pageOf wire params entries
      if page.truncated then
        let rest ← browse wire entries n (nextRequest params page)
        some (page :: rest.1, rest.2)
      else some ([page], true)

section Paging
variable {wire : Wire} (opens : ∀ payload, wire.openToken (wire.signToken payload) = some payload)
variable (entries : List ListEntry)

theorem browse_more (n : Nat) (params : ListParams) (pages : List Page)
    (ended : browse wire entries n params = some (pages, true)) : browse wire entries (n + 1) params = some (pages, true) := by
  induction n generalizing params pages with
  | zero => cases ended
  | succ n ih =>
    rw [browse] at ended ⊢
    cases answered : pageOf wire params entries with
    | none =>
      rw [answered] at ended
      cases ended
    | some page =>
      rw [answered, Option.bind_eq_bind, Option.bind_some] at ended
      rw [Option.bind_eq_bind, Option.bind_some]
      split_ifs at ended ⊢ with truncated
      · cases later : browse wire entries n (nextRequest params page) with
        | none =>
          rw [later] at ended
          cases ended
        | some rest =>
          rw [later] at ended
          obtain ⟨front, done⟩ := rest
          cases ended
          rw [ih (nextRequest params page) front later]
          rfl
      · exact ended

/-- The pages of a listing do not depend on how many were asked for. -/
theorem browse_once (n m : Nat) (params : ListParams) (pages pages' : List Page)
    (ended : browse wire entries n params = some (pages, true))
    (ended' : browse wire entries m params = some (pages', true)) : pages = pages' := by
  have more : ∀ (k j : Nat) (found : List Page), browse wire entries j params = some (found, true) →
      browse wire entries (j + k) params = some (found, true) := by
    intro k
    induction k with
    | zero => exact fun j found ended => ended
    | succ k ih => exact fun j found ended => browse_more entries (j + k) params found (ih j found ended)
  have first := more m n pages ended
  have second := more n m pages' ended'
  rw [Nat.add_comm, second] at first
  cases first
  rfl

theorem nextRequest_keeps (params : ListParams) (page : Page) :
    (nextRequest params page).keyPrefix = params.keyPrefix ∧ (nextRequest params page).delimiter = params.delimiter ∧
      (nextRequest params page).cap = params.cap := by
  unfold nextRequest
  cases params.isV2 <;> exact ⟨rfl, rfl, rfl⟩

/-- Without a delimiter there are only files. -/
theorem matched_file (params : ListParams) (whole : params.delimiter = none) (item : Item)
    (member : item ∈ matched params entries) : ∃ key, item = .file key := by
  cases item with
  | file key => exact ⟨key, rfl⟩
  | dir name =>
    have inside := (mem_emitted_dir _ name).mp member
    rw [selectItems, whole] at inside
    cases inside

/-- The request for the next page resumes behind the last file of this one. -/
theorem nextRequest_resumes (opens : ∀ payload, wire.openToken (wire.signToken payload) = some payload)
    (params : ListParams) (page : Page) (key : Text) (whole : params.delimiter = none)
    (ends : (emitted page.items).getLast? = some (.file key)) (token : page.token = some (nextToken wire page.items)) :
    (resumePoint wire (nextRequest params page)).map cursorOf = some (some (.file key)) ∧
      Plain (nextRequest params page) := by
  unfold nextRequest
  cases version : params.isV2 with
  | true =>
    rw [if_pos rfl]
    constructor
    · exact resume_token opens _ page.items (.file key) rfl token ends
    · intro _ missing
      exact absurd (token.symm.trans missing) (Option.some_ne_none _)
  | false =>
    have last : page.items.contents.getLast?.map ListEntry.key = some key := by
      rw [last_emitted] at ends
      cases dirs : page.items.commonPrefixes.getLast? with
      | some name =>
        rw [dirs] at ends
        cases ends
      | none =>
        rw [dirs] at ends
        cases files : page.items.contents.getLast? with
        | none =>
          rw [files] at ends
          cases ends
        | some e =>
          rw [files] at ends
          cases ends
          rfl
    rw [if_neg Bool.false_ne_true, last]
    constructor
    · unfold resumePoint resumeFrom
      rw [whole, if_neg Bool.false_ne_true]
      simp [cursorOf]
    · intro modern
      exact absurd modern Bool.false_ne_true

/-- A client's walk is the walk of a cursor over the files. -/
theorem browse_simulates (opens : ∀ payload, wire.openToken (wire.signToken payload) = some payload) (n : Nat)
    (params : ListParams) (cursor : Option Item) (plain : Plain params) (room : 1 ≤ params.cap)
    (whole : params.delimiter = none) (point : (resumePoint wire params).map cursorOf = some cursor) :
    ∃ pages done, browse wire entries n params = some (pages, done) ∧
      (pages.map fun page => emitted page.items, done) =
        Cursors.walk Item.Before params.cap cursor (List.replicate n (matched params entries)) := by
  induction n generalizing params cursor with
  | zero => exact ⟨[], false, rfl, rfl⟩
  | succ n ih =>
    obtain ⟨page, answered, shown, cut, token⟩ := page_simulates params cursor entries room point
    rw [browse, answered, List.replicate_succ, Option.bind_eq_bind, Option.bind_some]
    cases truncated : page.truncated with
    | false =>
      rw [if_neg Bool.false_ne_true, Cursors.walk_last _ (cut.symm.trans truncated), ← shown]
      exact ⟨[page], true, rfl, rfl⟩
    | true =>
      have more : Cursors.more Item.Before params.cap cursor (matched params entries) = true := cut.symm.trans truncated
      obtain ⟨front, last, ends, next⟩ := Cursors.page_getLast room more
      have inside : last ∈ matched params entries :=
        @Cursors.mem_of_mem_page _ Item.Before _ _ _ _ last (by rw [ends]; simp)
      obtain ⟨key, rfl⟩ := matched_file entries params whole last inside
      have keeps := nextRequest_keeps params page
      have resumes := nextRequest_resumes opens params page key whole (by rw [shown]; exact next) (token truncated)
      have same := matched_plain params (nextRequest params page) ⟨keeps.1, keeps.2.1⟩ plain resumes.2
      obtain ⟨pages, done, walked, simulated⟩ := ih (nextRequest params page) (some (.file key)) resumes.2
        (by rw [keeps.2.2]; exact room) (keeps.2.1.trans whole) resumes.1
      rw [keeps.2.2, same] at simulated
      rw [if_pos rfl, Cursors.walk_more _ more, next, ← simulated, walked, ← shown]
      exact ⟨page :: pages, done, rfl, rfl⟩

/-- The walk ends with the files of the listing. -/
theorem browse_ends (opens : ∀ payload, wire.openToken (wire.signToken payload) = some payload) (params : ListParams)
    (plain : Plain params) (room : 1 ≤ params.cap) (whole : params.delimiter = none)
    (point : (resumePoint wire params).map cursorOf = some none) (distinct : (fileKeys entries).Nodup) :
    ∃ n pages, browse wire entries n params = some (pages, true) ∧ shownItems pages = matched params entries := by
  have all : Cursors.rest Item.Before none (matched params entries) = matched params entries :=
    List.filter_eq_self.mpr fun _ _ => rfl
  obtain ⟨pages, done, walked, simulated⟩ := browse_simulates entries opens ((matched params entries).length + 1) params none
    plain room whole point
  have fixed := Cursors.walk_fixed room (matched_ascending params entries distinct) none
    ((matched params entries).length + 1) (by rw [all]; exact Nat.lt_succ_self _)
  rw [← simulated] at fixed
  have finished : done = true := fixed.1
  rw [finished] at walked
  have shown : shownItems pages = Cursors.rest Item.Before none (matched params entries) := fixed.2
  exact ⟨_, pages, walked, shown.trans all⟩

end Paging

/-! What a listing is for: the files under the prefix. -/

section Wanted
variable (params : ListParams) (tree : Tree Char Info)

def wanted : List (Text × Info) := (tree.entries '/' []).filter fun file => params.keyPrefix.isPrefixOf file.1

def itemOf (file : Text × Info) : Item := .file file.1

/-- The listing is reported as failed, or its pages come to an end and show every file
under the prefix once. -/
def Complete (wire : Wire) (walked : Except BackendError (List ListEntry)) : Prop :=
  ∀ entries, entriesOf none walked = .ok entries →
    ∃ n pages, browse wire entries n params = some (pages, true) ∧ (shownItems pages).Perm ((wanted params tree).map itemOf)

/-- The files of the prefix's folder in the order of the walk. -/
def walkedFiles : List (Text × Info) :=
  ((tree.find (segments '/' params.folder)).map fun sub => sub.visited '/' params.folder).getD []

/-- The folder is refused, or nothing is under the prefix, or the walk reads every path and
no file under the prefix comes after the walk's limit. -/
def Findable (config : Config) : Prop :=
  (∃ e, validateFolder params.folder = .error e) ∨ wanted params tree = [] ∨
    1 ≤ params.cap ∧ decodeBytes (utf8 (baseUrlPath config.trimmed)) = utf8 (baseUrlPath config.trimmed) ∧
      ∀ file ∈ (walkedFiles params tree).drop maxListEntries, params.keyPrefix.isPrefixOf file.1 = false

theorem folder_spec : params.folder <+: params.keyPrefix ∧ (params.folder = [] ∨ params.folder.getLast? = some '/') := by
  unfold ListParams.folder
  cases cut : rsplitOnce '/' params.keyPrefix with
  | none => exact ⟨List.nil_prefix, .inl rfl⟩
  | some parts =>
    have whole := rsplitOnce_some '/' params.keyPrefix parts.1 parts.2 cut
    constructor
    · exact ⟨parts.2, by rw [whole]; simp⟩
    · exact .inr List.getLast?_concat

/-- Every file under the prefix is met by the walk of the prefix's folder. -/
theorem wanted_perm (named : tree.Named '/') :
    (wanted params tree).Perm ((walkedFiles params tree).filter fun file => params.keyPrefix.isPrefixOf file.1) := by
  have folder := folder_spec params
  have path := folderOf_segments '/' params.folder folder.2
  have inFolder := filter_entries '/' (segments '/' params.folder) [] tree named (segments_free '/' params.folder)
  rw [path, List.nil_append] at inFolder
  have narrowed : wanted params tree =
      ((tree.entries '/' []).filter fun file => params.folder.isPrefixOf file.1).filter
        fun file => params.keyPrefix.isPrefixOf file.1 := by
    rw [List.filter_filter]
    apply List.filter_congr
    intro file _
    cases begins : params.keyPrefix.isPrefixOf file.1 with
    | false => rfl
    | true =>
      have whole := folder.1.trans (List.isPrefixOf_iff_prefix.mp begins)
      rw [List.isPrefixOf_iff_prefix.mpr whole]
      rfl
  rw [narrowed, inFolder, walkedFiles]
  apply List.Perm.filter
  cases tree.find (segments '/' params.folder) with
  | none => exact List.Perm.nil
  | some sub => exact (visited_perm '/' params.folder sub).symm

theorem walkedFiles_nodup (named : tree.Named '/') : ((walkedFiles params tree).map Prod.fst).Nodup := by
  unfold walkedFiles
  cases found : tree.find (segments '/' params.folder) with
  | none => exact List.nodup_nil
  | some sub =>
    have names := find_named '/' tree named _ sub found
    exact ((visited_perm '/' params.folder sub).map Prod.fst).symm.nodup (entries_nodup '/' params.folder sub names)

end Wanted

/-! The pages against the files. -/

section Pages
variable (params : ListParams)

/-- What is paged of a listing of files. -/
theorem matched_perm (plain : Plain params) (whole : params.delimiter = none) (files : List (Text × Info)) :
    (matched params (files.map entryOf)).Perm
      ((files.filter fun file => params.keyPrefix.isPrefixOf file.1).map itemOf) := by
  have matching : ((files.map entryOf).filter fun e => params.keyPrefix.isPrefixOf e.key) =
      (files.filter fun file => params.keyPrefix.isPrefixOf file.1).map entryOf := by
    rw [List.filter_map]
    rfl
  have direct : ((files.filter fun file => params.keyPrefix.isPrefixOf file.1).map entryOf).filter (fun e => !e.isDir) =
      (files.filter fun file => params.keyPrefix.isPrefixOf file.1).map entryOf := by
    apply List.filter_eq_self.mpr
    intro e member
    obtain ⟨file, -, rfl⟩ := List.mem_map.mp member
    rfl
  have begun : ∀ l : List ListEntry, (l.filter fun e => params.starts e.key) = l := fun l =>
    List.filter_eq_self.mpr fun e _ => plain.starts e.key
  have names : (selectItems (files.map entryOf) params).commonPrefixes = [] := by
    rw [selectItems, whole]
    rfl
  rw [matched, emitted, names, List.map_nil, List.append_nil]
  change (((List.insertionSort (fun a b : ListEntry => NotAfter a.key b.key) _).filter
    fun e : ListEntry => params.starts e.key).map _).Perm _
  rw [begun, matching, direct]
  have sorted := (List.perm_insertionSort (fun a b : ListEntry => NotAfter a.key b.key)
    ((files.filter fun file => params.keyPrefix.isPrefixOf file.1).map entryOf)).map fun e => Item.file e.key
  rw [List.map_map] at sorted
  exact sorted

/-- A list that is cut holds the same of a kind exactly when nothing of the kind is behind the cut. -/
theorem cut_perm_iff {α β : Type} (n : Nat) (items : List α) (kind : α → Bool) (f : α → β) :
    (((items.take n).filter kind).map f).Perm ((items.filter kind).map f) ↔ ∀ i ∈ items.drop n, kind i = false := by
  have split : items.filter kind = (items.take n).filter kind ++ (items.drop n).filter kind := by
    rw [← List.filter_append, List.take_append_drop]
  rw [split]
  constructor
  · intro same i member
    have lengths := same.length_eq
    rw [List.length_map, List.length_map, List.length_append] at lengths
    have none_ : (items.drop n).filter kind = [] := List.length_eq_zero_iff.mp (by omega)
    exact Bool.eq_false_iff.mpr (List.filter_eq_nil_iff.mp none_ i member)
  · intro free
    have none_ : (items.drop n).filter kind = [] :=
      List.filter_eq_nil_iff.mpr fun i member => Bool.eq_false_iff.mp (free i member)
    rw [none_, List.append_nil]

variable {wire : Wire} (tree : Tree Char Info)

/-- A listing that was read is complete when its files are the ones under the prefix. -/
theorem complete_iff (opens : ∀ payload, wire.openToken (wire.signToken payload) = some payload) (plain : Plain params)
    (whole : params.delimiter = none) (room : 1 ≤ params.cap) (point : (resumePoint wire params).map cursorOf = some none)
    (files : List (Text × Info)) (distinct : (files.map Prod.fst).Nodup) :
    Complete params tree wire (.ok (files.map entryOf)) ↔
      ((files.filter fun file => params.keyPrefix.isPrefixOf file.1).map itemOf).Perm ((wanted params tree).map itemOf) := by
  have keys : (fileKeys (files.map entryOf)).Nodup := by
    apply List.Nodup.sublist (List.filter_sublist.map ListEntry.key)
    rw [List.map_map]
    exact distinct
  obtain ⟨n, pages, ended, shown⟩ := browse_ends (files.map entryOf) opens params plain room whole point keys
  have listed := matched_perm params plain whole files
  constructor
  · intro complete
    obtain ⟨m, pages', ended', same⟩ := complete (files.map entryOf) rfl
    have once := browse_once (files.map entryOf) n m params pages pages' ended ended'
    rw [← once, shown] at same
    exact listed.symm.trans same
  · intro same entries read
    cases read
    exact ⟨n, pages, ended, shown ▸ listed.trans same⟩

/-- A page without room shows nothing and is not cut. -/
theorem complete_empty_iff (room : params.cap = 0) (point : (resumePoint wire params).map cursorOf = some none)
    (entries : List ListEntry) : Complete params tree wire (.ok entries) ↔ wanted params tree = [] := by
  have single : browse wire entries 1 params = some ([⟨⟨[], []⟩, false, none⟩], true) := by
    obtain ⟨resume, resumes, -⟩ := Option.map_eq_some_iff.mp point
    rw [browse, pageOf, resumes, Option.map_some, if_pos room]
    rfl
  constructor
  · intro complete
    obtain ⟨n, pages, ended, same⟩ := complete entries rfl
    have once := browse_once entries 1 n params _ pages single ended
    rw [← once] at same
    exact List.map_eq_nil_iff.mp (List.nil_perm.mp same)
  · intro none_ other read
    cases read
    exact ⟨1, _, single, by rw [none_]; exact List.Perm.nil⟩

end Pages

/-- A folder that no answer is read for: only an empty tree is listed completely. -/
theorem blind_iff {wire : Wire} (config : Config) (tree : Tree Char Info) (named : tree.Named '/') (params : ListParams)
    (empty : Complete params tree wire (.ok []) ↔ wanted params tree = [])
    (allowed : validateFolder params.folder = .ok ()) (walked : Except BackendError (List ListEntry))
    (blind : tree.find (segments '/' params.folder) = none ∨
      decodeBytes (utf8 (baseUrlPath config.trimmed)) ≠ utf8 (baseUrlPath config.trimmed))
    (found : walked = .ok [] ∨ tree.find (segments '/' params.folder) = none ∧ ∃ e, walked = .error e) :
    Complete params tree wire walked ↔ Findable params tree config := by
  have absent : tree.find (segments '/' params.folder) = none → wanted params tree = [] := by
    intro missing
    have perm := wanted_perm params tree named
    rw [walkedFiles, missing] at perm
    exact List.perm_nil.mp perm
  have nothing : Findable params tree config ↔ wanted params tree = [] := by
    constructor
    · rintro (⟨e, refused⟩ | none_ | ⟨-, straight, -⟩)
      · rw [allowed] at refused
        cases refused
      · exact none_
      · exact absent (blind.resolve_right fun escaped => escaped straight)
    · exact fun none_ => .inr (.inl none_)
  rw [nothing]
  rcases found with rfl | ⟨missing, e, rfl⟩
  · exact empty
  · apply iff_of_true _ (absent missing)
    have none_ := empty.mpr (absent missing)
    intro entries read
    cases e with
    | notFound => exact none_ entries read
    | rateLimited _ => cases read
    | serverError => cases read
    | authRequired => cases read
    | rangeNotSatisfiable => cases read
    | other => cases read

/-- A folder that the walk reads: what is complete is decided at the limit. -/
theorem seen_iff {wire : Wire} (config : Config) (tree : Tree Char Info) (named : tree.Named '/') (params : ListParams)
    (plain : Plain params) (opens : ∀ payload, wire.openToken (wire.signToken payload) = some payload)
    (whole : params.delimiter = none) (point : (resumePoint wire params).map cursorOf = some none)
    (allowed : validateFolder params.folder = .ok ())
    (straight : decodeBytes (utf8 (baseUrlPath config.trimmed)) = utf8 (baseUrlPath config.trimmed)) :
    Complete params tree wire (.ok (((walkedFiles params tree).take maxListEntries).map entryOf)) ↔
      Findable params tree config := by
  have perm := wanted_perm params tree named
  have refused : ¬ ∃ e, validateFolder params.folder = .error e := by
    rintro ⟨e, refused⟩
    rw [allowed] at refused
    cases refused
  by_cases room : params.cap = 0
  · rw [complete_empty_iff params tree room point]
    constructor
    · exact fun none_ => .inr (.inl none_)
    · rintro (error | none_ | ⟨some_, -⟩)
      · exact absurd error refused
      · exact none_
      · omega
  · have distinct : (((walkedFiles params tree).take maxListEntries).map Prod.fst).Nodup :=
      (walkedFiles_nodup params tree named).sublist ((List.take_sublist _ _).map Prod.fst)
    have cut := cut_perm_iff maxListEntries (walkedFiles params tree) (fun file => params.keyPrefix.isPrefixOf file.1) itemOf
    rw [complete_iff params tree opens plain whole (by omega) point _ distinct, (perm.map itemOf).congr_right, cut]
    constructor
    · exact fun free => .inr (.inr ⟨by omega, straight, free⟩)
    · rintro (error | none_ | ⟨-, -, free⟩)
      · exact absurd error refused
      · rw [none_] at perm
        have nowhere := List.filter_eq_nil_iff.mp (List.nil_perm.mp perm)
        exact fun file member => Bool.eq_false_iff.mpr (nowhere file (List.mem_of_mem_drop member))
      · exact free

/-! Listings end to end. -/

theorem validateFolder_error (folder : Text) (e : BackendError) (refused : validateFolder folder = .error e) :
    e = .other := by
  unfold validateFolder at refused
  split_ifs at refused
  · cases refused
    rfl
  · cases refused
    rfl

section EndToEnd
variable (hashes : Hashes) (tokenKey : List UInt8) (formParse : Text → List (Text × Text)) (iso8601 : Text → Option Text)

/-- A recursive listing from its first page on: it comes to an end, and what it says is
complete exactly when the files are within the walk's reach. -/
theorem listing_complete_iff (sized : ∀ payload, (hashes.hmacSha256 tokenKey payload).length = 32) (config : Config)
    (tree : Tree Char Info) (propfind : Text → Except DavError (List ListEntity)) (named : tree.Named '/')
    (shallow : tree.depth < maxListDepth) (serves : Serves config tree propfind) (params : ListParams)
    (first : params.continuationToken = none ∧ params.marker = none ∧ params.startAfter = none)
    (whole : params.delimiter = none) :
    ∃ walked need, (∀ fuel, need ≤ fuel → list propfind config fuel params.folder params.recursive = some walked) ∧
      (Complete params tree (wire hashes tokenKey formParse iso8601) walked ↔ Findable params tree config) := by
  have plain : Plain params := fun _ _ => first.2.2
  have opens := wire_opens hashes tokenKey formParse iso8601 sized
  have recursive : params.recursive = true := by
    rw [ListParams.recursive, whole]
    rfl
  have start : (resumePoint (wire hashes tokenKey formParse iso8601) params).map cursorOf = some none := by
    unfold resumePoint resumeFrom
    rw [first.1, first.2.1]
    cases params.isV2 <;> rfl
  have closed := (folder_spec params).2
  have empty : Complete params tree (wire hashes tokenKey formParse iso8601) (.ok []) ↔ wanted params tree = [] := by
    by_cases room : params.cap = 0
    · exact complete_empty_iff params tree room start []
    · have files := complete_iff params tree opens plain whole (by omega) start [] List.nodup_nil
      exact files.trans (List.nil_perm.trans List.map_eq_nil_iff)
  rw [recursive]
  cases allowed : validateFolder params.folder with
  | error e =>
    refine ⟨.error e, 0, fun fuel _ => by rw [list, allowed], iff_of_true ?_ (.inl ⟨e, allowed⟩)⟩
    intro entries read
    rw [validateFolder_error params.folder e allowed] at read
    cases read
  | ok done =>
    by_cases blind : tree.find (segments '/' params.folder) = none ∨
        decodeBytes (utf8 (baseUrlPath config.trimmed)) ≠ utf8 (baseUrlPath config.trimmed)
    · obtain ⟨walked, runs, found⟩ := list_blind serves params.folder closed allowed blind
      refine ⟨walked, 1, fun fuel enough => ?_, blind_iff config tree named params empty allowed walked blind found⟩
      cases fuel with
      | zero => cases enough
      | succ fuel => exact runs fuel
    · obtain ⟨present, straight⟩ := not_or.mp blind
      obtain ⟨sub, found⟩ := Option.ne_none_iff_exists'.mp present
      have visited : walkedFiles params tree = sub.visited '/' params.folder := by
        rw [walkedFiles, found]
        rfl
      refine ⟨_, sub.dirs + 1,
        list_found serves named (not_not.mp straight) shallow params.folder closed allowed sub found, ?_⟩
      rw [← visited, ← List.map_take]
      exact seen_iff config tree named params plain opens whole start allowed (not_not.mp straight)

end EndToEnd

/-! A server for any tree, at the root of its host. -/

def config : Config := ⟨['h', 't', 't', 'p', ':', '/', '/', 'h'], none⟩

def plainByte (b : UInt8) : Bool :=
  (0x41 ≤ b ∧ b ≤ 0x5A) ∨ (0x61 ≤ b ∧ b ≤ 0x7A) ∨ (0x30 ≤ b ∧ b ≤ 0x39) ∨ b = 0x2F

def answer (dir : Text) : Tree Char Info → List ListEntity
  | .nil => [.folder (encode plainByte dir) ⟨0, none, []⟩]
  | .file name info rest => .file (encode plainByte (dir ++ name)) info :: answer dir rest
  | .dir name _ rest => .folder (encode plainByte (dir ++ name ++ ['/'])) ⟨0, none, []⟩ :: answer dir rest

def serving (tree : Tree Char Info) (path : Text) : Except DavError (List ListEntity) :=
  match tree.find (segments '/' path.tail) with
  | some sub => .ok (answer path sub)
  | none => .error (.statusMismatched 404)

theorem plainByte_plain : Percent.Plain plainByte := by
  have each : ∀ n, n < 256 → plainByte (UInt8.ofNat n) = true → UInt8.ofNat n < 0x80 ∧ UInt8.ofNat n ≠ 0x25 := by
    decide +kernel
  intro b kept
  have here := each b.toNat b.toNat_lt
  rw [UInt8.ofNat_toNat] at here
  exact here kept

theorem colon_free (text : Text) : ':' ∉ encode plainByte text := by
  apply not_mem_encode plainByte text ':' (by decide) (by decide)
  have each : ∀ n, n < 256 → plainByte (UInt8.ofNat n) = true → latin (UInt8.ofNat n) ≠ ':' := by decide +kernel
  intro b kept
  have here := each b.toNat b.toNat_lt
  rw [UInt8.ofNat_toNat] at here
  exact here kept

theorem splitAtText_free (text : Text) (free : ':' ∉ text) : splitAtText schemeMark text = none := by
  induction text with
  | nil => rfl
  | cons c text ih =>
    have other : c ≠ ':' := fun same => free (same ▸ List.mem_cons_self)
    have unmarked : stripPrefix schemeMark (c :: text) = none := by
      rw [stripPrefix, if_neg]
      intro begins
      exact other (List.cons_prefix_cons.mp (List.isPrefixOf_iff_prefix.mp begins)).1.symm
    rw [splitAtText, unmarked, ih fun member => free (List.mem_cons_of_mem c member)]
    rfl

theorem points_encode (more slashes : Text) (resource : Text) (whole : resource ++ slashes = '/' :: more)
    (only : ∀ c ∈ slashes, c = '/') : Points [] resource (encode plainByte (resource ++ slashes)) := by
  have begins : encode plainByte (resource ++ slashes) = '/' :: encode plainByte more := by
    rw [whole, encode, utf8_cons]
    rfl
  refine ⟨encode plainByte more, slashes, ?_, only, ?_⟩
  · rw [← begins]
    exact Addresses.alone (splitAtText_free _ (colon_free _))
  · rw [← begins, encode, decodeBytes_encodeBytes plainByte plainByte_plain]
    rfl

/-- The server answers a directory with its children and itself. -/
theorem lists_answer (folder : Text) (ends : '/' :: folder = ('/' :: folder).dropLast ++ ['/']) (tree : Tree Char Info) :
    Lists [] ('/' :: folder) tree (answer ('/' :: folder) tree) := by
  induction tree with
  | nil =>
    apply Lists.itself _ _ _ _ Lists.nil
    have points := points_encode folder ['/'] ('/' :: folder).dropLast ends.symm (by simp)
    rw [← ends] at points
    exact points
  | file name info rest ih =>
    apply Lists.file name info _ rest _ _ ih
    have points := points_encode (folder ++ name) [] ('/' :: folder ++ name) (List.append_nil _) (by simp)
    rw [List.append_nil] at points
    exact points
  | dir name inside rest _ ih =>
    apply Lists.folder name inside _ _ rest _ _ ih
    exact points_encode (folder ++ name ++ ['/']) ['/'] ('/' :: folder ++ name) rfl (by simp)

theorem serves_serving (tree : Tree Char Info) (named : tree.Named '/') : Serves config tree (serving tree) where
  found names sub here := by
    have free := find_names '/' tree named names sub here
    have path := segments_folderOf '/' names fun name member => (free name member).2
    refine ⟨answer ('/' :: folderOf '/' names) sub, ?_, ?_⟩
    · change (match tree.find (segments '/' (folderOf '/' names)) with | some sub => _ | none => _) = _
      rw [path, here]
      rfl
    · exact lists_answer (folderOf '/' names) (davFolder_ends none names) sub
  missing names items free absent answered := by
    have path := segments_folderOf '/' names free
    change (match tree.find (segments '/' (folderOf '/' names)) with | some sub => _ | none => _) = _ at answered
    rw [path, absent] at answered
    cases answered

/-- Every file of the bucket, in pages of one. -/
def listingParams : ListParams := { sampleParams with delimiter := none }

def library : Tree Char Info :=
  .file ['b'] ⟨1, none, []⟩ (.dir ['d'] (.file ['a'] ⟨2, none, []⟩ .nil) .nil)

theorem library_named : library.Named '/' :=
  ⟨by decide, by decide, by decide, by decide, by decide, by decide, ⟨by decide, by decide, by decide, trivial⟩, trivial⟩

theorem listing_complete_library : ∃ walked need,
    (∀ fuel, need ≤ fuel → list (serving library) config fuel listingParams.folder listingParams.recursive = some walked) ∧
      Complete listingParams library sampleWire walked := by
  obtain ⟨walked, need, runs, complete⟩ := listing_complete_iff sampleTokens sampleTokenKey (fun _ => []) (fun _ => none)
    sampleTokens_sized config library (serving library) library_named (by decide) (serves_serving library library_named)
    listingParams ⟨rfl, rfl, rfl⟩ rfl
  refine ⟨walked, need, runs, complete.mpr (.inr (.inr ⟨by decide, rfl, ?_⟩))⟩
  have few : (walkedFiles listingParams library).length ≤ maxListEntries := by decide
  rw [List.drop_eq_nil_of_le few]
  exact fun file member => by cases member

/-- One directory of as many files as wanted, named by numerals. -/
def flat : Nat → Tree Char Info
  | 0 => .nil
  | n + 1 => .file (numeral n) ⟨1, none, []⟩ (flat n)

theorem flat_names (n : Nat) (name : Text) (member : name ∈ (flat n).names) : ∃ i, i < n ∧ name = numeral i := by
  induction n with
  | zero => cases member
  | succ n ih =>
    cases List.mem_cons.mp member with
    | inl same => exact ⟨n, Nat.lt_succ_self n, same⟩
    | inr later =>
      obtain ⟨i, bound, same⟩ := ih later
      exact ⟨i, Nat.lt_succ_of_lt bound, same⟩

theorem flat_named (n : Nat) : (flat n).Named '/' := by
  induction n with
  | zero => trivial
  | succ n ih =>
    refine ⟨numeral_ne_nil n, not_mem_numeral n '/' (by decide), ?_, ih⟩
    intro member
    obtain ⟨i, bound, same⟩ := flat_names n (numeral n) member
    have equal := numeral_injective same
    omega

theorem flat_depth (n : Nat) : (flat n).depth = 0 := by
  induction n with
  | zero => rfl
  | succ n ih => exact ih

theorem flat_length (n : Nat) : ((flat n).entries '/' []).length = n := by
  induction n with
  | zero => rfl
  | succ n ih => exact congrArg (· + 1) ih

/-- Past the limit a listing of everything is not complete. -/
theorem not_findable (params : ListParams) (tree : Tree Char Info) (config : Config) (named : tree.Named '/')
    (everything : params.keyPrefix = []) (allowed : validateFolder params.folder = .ok ())
    (many : maxListEntries < (walkedFiles params tree).length) : ¬ Findable params tree config := by
  have all : ∀ file : Text × Info, params.keyPrefix.isPrefixOf file.1 = true := by
    intro file
    rw [everything]
    rfl
  rintro (⟨e, refused⟩ | none_ | ⟨-, -, free⟩)
  · rw [allowed] at refused
    cases refused
  · have perm := (wanted_perm params tree named).length_eq
    rw [none_, List.filter_eq_self.mpr fun file _ => all file] at perm
    rw [← perm] at many
    cases many
  · have inside : 0 < ((walkedFiles params tree).drop maxListEntries).length := by
      rw [List.length_drop]
      omega
    have absent := free _ (List.getElem_mem inside)
    rw [all] at absent
    cases absent

/-- A directory past the limit is listed without its last files, and no page says so. -/
theorem flat_incomplete (n : Nat) (many : maxListEntries < n) :
    ∃ walked, (∀ fuel, (flat n).dirs + 1 ≤ fuel → list (serving (flat n)) config fuel [] true = some walked) ∧
      ¬ Complete listingParams (flat n) sampleWire walked := by
  have found : (flat n).find (segments '/' []) = some (flat n) := by
    rw [show segments '/' ([] : Text) = [] from rfl]
    cases n <;> rfl
  have length : (walkedFiles listingParams (flat n)).length = n := by
    rw [walkedFiles, show listingParams.folder = [] from rfl, found]
    exact (visited_perm '/' [] (flat n)).length_eq.trans (flat_length n)
  have listed := list_found (serves_serving (flat n) (flat_named n)) (flat_named n) rfl
    (by rw [flat_depth]; decide) [] (.inl rfl) rfl (flat n) found
  have visited : walkedFiles listingParams (flat n) = (flat n).visited '/' [] := by
    rw [walkedFiles, show listingParams.folder = [] from rfl, found]
    rfl
  have start : (resumePoint sampleWire listingParams).map cursorOf = some none := rfl
  have seen := seen_iff config (flat n) (flat_named n) listingParams (fun _ _ => rfl)
    (wire_opens sampleTokens sampleTokenKey (fun _ => []) (fun _ => none) sampleTokens_sized) rfl start rfl rfl
  refine ⟨_, listed, ?_⟩
  rw [← visited, ← List.map_take]
  intro complete
  exact not_findable listingParams (flat n) config (flat_named n) rfl rfl (length.symm ▸ many) (seen.mp complete)

/-- One file too many. -/
theorem overfull_incomplete :
    (flat 50001).Named '/' ∧ (flat 50001).depth < maxListDepth ∧ Serves config (flat 50001) (serving (flat 50001)) ∧
      ∃ walked, (∀ fuel, (flat 50001).dirs + 1 ≤ fuel →
        list (serving (flat 50001)) config fuel listingParams.folder listingParams.recursive = some walked) ∧
          ¬ Complete listingParams (flat 50001) sampleWire walked :=
  ⟨flat_named 50001, (flat_depth 50001).symm ▸ by decide, serves_serving (flat 50001) (flat_named 50001),
    flat_incomplete 50001 (by decide)⟩

end OriginCache.Backend.Listings
