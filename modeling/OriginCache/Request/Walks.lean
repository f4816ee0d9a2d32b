import OriginCache.Foundation.Base64
import OriginCache.Foundation.Cursors
import OriginCache.Request.Pages

/-! Walking a listing page by page, each page over whatever the upstream holds by then.
The page tokens carry the last item and a truncated keyed hash of it. -/

namespace OriginCache.Request.Walks
open Foundation Foundation.Splits Foundation.Percent Canonical Sigv4 Listing Pages
open Cache.SegName (Text)
open Cache.Key (fromUtf8 fromUtf8_iff)

/-! Page tokens. -/

section Tokens
variable (hashes : Hashes) (tokenKey : List UInt8)

def tokenMac (payload : List UInt8) : List UInt8 := hashes.hmacSha256 tokenKey payload

def signToken (payload : Text) : Text :=
  Base64.encode (utf8 payload ++ (tokenMac hashes tokenKey (utf8 payload)).take 10)

def foldDiff (expected sig : List UInt8) : UInt8 :=
  (expected.zip sig).foldl (fun diff pair => diff ||| (pair.1 ^^^ pair.2)) 0

def openToken (token : Text) : Option Text :=
  match Base64.decode token with
  | none => none
  | some bytes =>
      if bytes.length < 10 then none
      else
        let payload := bytes.take (bytes.length - 10)
        let sig := bytes.drop (bytes.length - 10)
        if foldDiff (tokenMac hashes tokenKey payload) sig = 0 then fromUtf8 payload else none

/-- The listing endpoint with the tokens of one process. -/
def wire (formParse : Text → List (Text × Text)) (iso8601 : Text → Option Text) : Wire where
  formParse := formParse
  signToken := signToken hashes tokenKey
  openToken := openToken hashes tokenKey
  iso8601 := iso8601

theorem fromUtf8_utf8 (text : Text) : fromUtf8 (utf8 text) = some text := (fromUtf8_iff _ _).mpr rfl

theorem foldDiff_take (mac : List UInt8) (n : Nat) : foldDiff mac (mac.take n) = 0 := by
  unfold foldDiff
  induction mac generalizing n with
  | nil => rfl
  | cons a rest ih =>
    cases n with
    | zero => rfl
    | succ n =>
      rw [List.take_succ_cons, List.zip_cons_cons, List.foldl_cons, UInt8.xor_self, UInt8.or_self]
      exact ih n

theorem openToken_signToken (sized : ∀ payload, (tokenMac hashes tokenKey payload).length = 32) (payload : Text) :
    openToken hashes tokenKey (signToken hashes tokenKey payload) = some payload := by
  have mac : ((tokenMac hashes tokenKey (utf8 payload)).take 10).length = 10 := by
    rw [List.length_take, sized]
    rfl
  have cut : (utf8 payload ++ (tokenMac hashes tokenKey (utf8 payload)).take 10).length - 10 =
      (utf8 payload).length := by
    rw [List.length_append, mac, Nat.add_sub_cancel]
  unfold openToken signToken
  simp only [Base64.decode_encode, cut, List.take_left, List.drop_left, foldDiff_take, if_true, fromUtf8_utf8]
  apply if_neg
  rw [List.length_append, mac]
  omega

end Tokens

/-! Pages and the client that follows them. -/

structure Page where
  items : PageItems
  truncated : Bool
  token : Option Text

/-- What a page is made of, before it is rendered; nothing when its token cannot be opened. -/
def pageOf (wire : Wire) (params : ListParams) (entries : List ListEntry) : Option Page :=
  (resumePoint wire params).map fun resume =>
    let shown := if params.cap = 0 then (⟨[], []⟩, false) else cut params.cap (resumed (selectItems entries params) resume)
    ⟨shown.1, shown.2, if shown.2 then some (nextToken wire shown.1) else none⟩

/-- The NextMarker of a V1 page. -/
def Page.nextMarker (page : Page) (params : ListParams) : Option Text :=
  if page.truncated ∧ params.delimiter.isSome then
    some ((page.items.commonPrefixes.getLast?.orElse fun _ => page.items.contents.getLast?.map ListEntry.key).getD [])
  else none

theorem listPage_pageOf (wire : Wire) (bucket : Text) (params : ListParams) (pathKey : Text) (ids : RequestIds)
    (entries : List ListEntry) :
    listPage wire bucket params pathKey ids (.ok entries) =
      match pageOf wire params entries with
      | none => invalidArgument .continuationToken pathKey ids
      | some page =>
          ⟨200, xmlType :: ("cache-control".toList, "private, max-age=5".toList) :: idHeaders ids,
            utf8 (renderXml wire bucket params page.items page.truncated page.token)⟩ := by
  unfold listPage pageOf resumePoint
  cases resumeFrom wire params with
  | none => rfl
  | some point =>
    cases point with
    | error bad => rfl
    | ok resume => rfl

theorem renderFields_marker (params : ListParams) (page : Page) (dialect : params.isV2 = false) :
    renderFields params page.items page.truncated page.token =
      maxKeysEcho params ++ optional params.marker (fun m => element "Marker" (encMaybe params m)) ++
        optional (page.nextMarker params) (fun next => element "NextMarker" (encMaybe params next)) ++
        renderOptions params := by
  rw [renderFields, dialect, if_neg Bool.false_ne_true, Page.nextMarker]
  by_cases next : page.truncated = true ∧ params.delimiter.isSome = true
  · rw [if_pos next, if_pos next]
    rfl
  · rw [if_neg next, if_neg next]
    rfl

/-- The request for the next page: the token of a V2 page, the NextMarker of a V1 page. -/
def follow (params : ListParams) (page : Page) : ListParams :=
  if params.isV2 then { params with continuationToken := page.token }
  else { params with marker := page.nextMarker params }

/-- Page after page until one is not truncated, each over its own listing; nothing when a
page is refused. The flag says that the walk came to its end. -/
@[grind =] def walk (wire : Wire) : ListParams → List (List ListEntry) → Option (List Page × Bool)
  | _, [] => some ([], false)
  | params, entries :: later => do
      let page ← pageOf wire params entries
      if page.truncated then
        let rest ← walk wire (follow params page) later
        some (page :: rest.1, rest.2)
      else some ([page], true)

/-! Items in the order of the two blocks. -/

inductive Item
  | file (key : Text) | dir (name : Text)
deriving DecidableEq, Repr

def Item.Before : Item → Item → Prop
  | .file a, .file b => a < b
  | .file _, .dir _ => True
  | .dir _, .file _ => False
  | .dir a, .dir b => a < b

instance : DecidableRel Item.Before
  | .file a, .file b => inferInstanceAs (Decidable (a < b))
  | .file _, .dir _ => isTrue trivial
  | .dir _, .file _ => isFalse id
  | .dir a, .dir b => inferInstanceAs (Decidable (a < b))

theorem before_trans (a b c : Item) (first : a.Before b) (second : b.Before c) : a.Before c := by
  cases a with
  | file a =>
    cases c with
    | dir c => exact trivial
    | file c =>
      cases b with
      | file b => exact List.lt_trans first second
      | dir b => exact absurd second id
  | dir a =>
    cases b with
    | file b => exact absurd first id
    | dir b =>
      cases c with
      | file c => exact absurd second id
      | dir c => exact List.lt_trans first second

instance : IsTrans Item Item.Before := ⟨before_trans⟩

@[simp] theorem before_file_file (a b : Text) : decide ((Item.file a).Before (.file b)) = decide (a < b) := rfl
@[simp] theorem before_file_dir (a b : Text) : decide ((Item.file a).Before (.dir b)) = true := rfl
@[simp] theorem before_dir_file (a b : Text) : decide ((Item.dir a).Before (.file b)) = false := rfl
@[simp] theorem before_dir_dir (a b : Text) : decide ((Item.dir a).Before (.dir b)) = decide (a < b) := rfl

instance : Std.Irrefl Item.Before where
  irrefl a := by
    cases a <;> exact List.lt_irrefl _

def emitted (items : PageItems) : List Item :=
  items.contents.map (fun e => Item.file e.key) ++ items.commonPrefixes.map Item.dir

def cursorOf : Resume → Option Item
  | .start => none
  | .afterContent key => some (.file key)
  | .afterPrefix name => some (.dir name)

/-- What a listing holds for a request, in the order it is paged in. -/
def matched (params : ListParams) (entries : List ListEntry) : List Item := emitted (selectItems entries params)

theorem emitted_resumed (items : PageItems) (resume : Resume) :
    emitted (resumed items resume) = Cursors.rest Item.Before (cursorOf resume) (emitted items) := by
  unfold Cursors.rest emitted
  rw [List.filter_append, List.filter_map, List.filter_map]
  cases resume with
  | start => simp [resumed, cursorOf, Function.comp_def]
  | afterContent key => simp [resumed, cursorOf, Function.comp_def]
  | afterPrefix name => simp [resumed, cursorOf, Function.comp_def]

theorem emitted_length (items : PageItems) :
    (emitted items).length = items.contents.length + items.commonPrefixes.length := by
  rw [emitted, List.length_append, List.length_map, List.length_map]

theorem emitted_cut (cap : Nat) (items : PageItems) :
    emitted (cut cap items).1 = (emitted items).take cap := by
  have left : cap - (items.contents.take cap).length = cap - items.contents.length := by
    rw [List.length_take]
    omega
  change (items.contents.take cap).map _ ++ (items.commonPrefixes.take _).map _ = _
  rw [left, emitted, List.take_append, List.length_map, List.map_take, List.map_take]

theorem truncated_cut (cap : Nat) (items : PageItems) :
    (cut cap items).2 = decide (cap < (emitted items).length) := by
  rw [emitted_length]
  unfold cut
  simp only [List.length_take]
  congr 1
  apply propext
  omega

/-! A listing is paged in ascending order. -/

/-- A listing with distinct keys whose directories, and only they, end in a slash. -/
structure Tidy (entries : List ListEntry) : Prop where
  distinct : (entries.map ListEntry.key).Nodup
  dirs : ∀ e ∈ entries, e.isDir = true → e.key.getLast? = some '/'
  files : ∀ e ∈ entries, e.isDir = false → e.key.getLast? ≠ some '/'

def fileKeys (entries : List ListEntry) : List Text := (entries.filter fun e => !e.isDir).map ListEntry.key

theorem Tidy.fileKeys {entries : List ListEntry} (tidy : Tidy entries) : (fileKeys entries).Nodup :=
  tidy.distinct.sublist (List.filter_sublist.map ListEntry.key)

theorem before_of_notAfter (a b : Text) (order : NotAfter a b) (other : a ≠ b) : a < b := by
  by_contra later
  exact other (notAfter_antisymm a b order later)

/-- A sorted list whose neighbours differ is strictly ascending. -/
theorem ascending_of_chain (names : List Text) (sorted : names.Pairwise NotAfter) (chain : names.IsChain (· ≠ ·)) :
    names.Pairwise (· < ·) := by
  induction names with
  | nil => exact List.Pairwise.nil
  | cons a rest ih =>
    cases rest with
    | nil => exact List.pairwise_singleton _ a
    | cons b rest =>
      have parts := List.isChain_cons_cons.mp chain
      have later := ih (List.pairwise_cons.mp sorted).2 parts.2
      have next := before_of_notAfter a b ((List.pairwise_cons.mp sorted).1 b List.mem_cons_self) parts.1
      apply List.pairwise_cons.mpr
      constructor
      · intro c member
        cases List.mem_cons.mp member with
        | inl same => exact same ▸ next
        | inr further => exact List.lt_trans next ((List.pairwise_cons.mp later).1 c further)
      · exact later

section Order
variable (params : ListParams) (entries : List ListEntry)

theorem contents_ascending (distinct : (fileKeys entries).Nodup) :
    (selectItems entries params).contents.Pairwise fun a b => a.key < b.key := by
  have keys : (((entries.filter fun e => params.keyPrefix.isPrefixOf e.key).filter fun e => !e.isDir).map
      ListEntry.key).Nodup := by
    rw [List.filter_comm]
    exact distinct.sublist (List.filter_sublist.map ListEntry.key)
  have sorted := List.pairwise_insertionSort KeyOrder
    ((entries.filter fun e => params.keyPrefix.isPrefixOf e.key).filter fun e => !e.isDir)
  have once := ((List.perm_insertionSort KeyOrder
    ((entries.filter fun e => params.keyPrefix.isPrefixOf e.key).filter fun e => !e.isDir)).symm.map ListEntry.key).nodup keys
  have strict : (((entries.filter fun e => params.keyPrefix.isPrefixOf e.key).filter fun e => !e.isDir).insertionSort
      KeyOrder).Pairwise fun a b => a.key < b.key := by
    apply List.Pairwise.imp _ (sorted.and (List.pairwise_map.mp once))
    intro a b facts
    exact before_of_notAfter a.key b.key facts.1 facts.2
  exact strict.filter _

theorem commonPrefixes_ascending : (selectItems entries params).commonPrefixes.Pairwise (· < ·) := by
  unfold selectItems
  apply List.Pairwise.filter
  by_cases delimited : params.delimiter.isSome = true
  · rw [if_pos delimited]
    apply ascending_of_chain
    · exact (List.pairwise_insertionSort NotAfter _).sublist (List.destutter_sublist _ _)
    · exact List.isChain_destutter _ _
  · rw [if_neg delimited]
    exact List.Pairwise.nil

theorem emitted_ascending (items : PageItems) :
    (emitted items).Pairwise Item.Before ↔
      (items.contents.Pairwise fun a b => a.key < b.key) ∧ items.commonPrefixes.Pairwise (· < ·) := by
  rw [emitted, List.pairwise_append, List.pairwise_map, List.pairwise_map]
  constructor
  · intro ordered
    exact ⟨ordered.1, ordered.2.1⟩
  · intro ordered
    refine ⟨ordered.1, ordered.2, fun a first b second => ?_⟩
    obtain ⟨e, -, rfl⟩ := List.mem_map.mp first
    obtain ⟨name, -, rfl⟩ := List.mem_map.mp second
    exact trivial

theorem matched_ascending (distinct : (fileKeys entries).Nodup) : (matched params entries).Pairwise Item.Before :=
  (emitted_ascending _).mpr ⟨contents_ascending params entries distinct, commonPrefixes_ascending params entries⟩

end Order

/-! The next page resumes behind the last item. -/

/-- No `start-after` applies to the page. -/
def Plain (params : ListParams) : Prop := params.isV2 = true → params.continuationToken = none → params.startAfter = none

theorem Plain.starts {params : ListParams} (plain : Plain params) (name : Text) : params.starts name = true := by
  unfold ListParams.starts
  by_cases first : params.isV2 = true ∧ params.continuationToken = none
  · rw [if_pos first, plain first.1 first.2]
    rfl
  · rw [if_neg first]

theorem matched_plain (params other : ListParams) (same : other.keyPrefix = params.keyPrefix ∧ other.delimiter = params.delimiter)
    (plain : Plain params) (plain' : Plain other) : matched other = matched params := by
  funext entries
  unfold matched selectItems
  simp only [plain.starts, plain'.starts, same.1, same.2]

theorem follow_keeps (params : ListParams) (page : Page) :
    (follow params page).keyPrefix = params.keyPrefix ∧ (follow params page).delimiter = params.delimiter := by
  unfold follow
  cases params.isV2 <;> exact ⟨rfl, rfl⟩

theorem matched_follow (params : ListParams) (page : Page) (plain : Plain params) (next : Plain (follow params page)) :
    matched (follow params page) = matched params :=
  matched_plain params (follow params page) (follow_keeps params page) plain next

theorem cap_follow (params : ListParams) (page : Page) : (follow params page).cap = params.cap := by
  unfold follow
  cases params.isV2 <;> rfl

/-- The last item of a page, by block. -/
theorem last_emitted (items : PageItems) :
    (emitted items).getLast? = (items.commonPrefixes.getLast?.map Item.dir).orElse fun _ =>
      items.contents.getLast?.map fun e => Item.file e.key := by
  rw [emitted, List.getLast?_append, List.getLast?_map, List.getLast?_map]
  cases items.commonPrefixes.getLast? <;> rfl

/-- Directories, and only they, end in a slash. -/
def Item.Slashed : Item → Prop
  | .file key => key.getLast? ≠ some '/'
  | .dir name => name.getLast? = some '/'

section Following
variable {wire : Wire} (opens : ∀ payload, wire.openToken (wire.signToken payload) = some payload)
include opens

theorem resume_token (params : ListParams) (items : PageItems) (last : Item) (dialect : params.isV2 = true)
    (token : params.continuationToken = some (nextToken wire items)) (ends : (emitted items).getLast? = some last) :
    (resumePoint wire params).map cursorOf = some (some last) := by
  have split : ∀ kind name, splitOnce '|' (kind :: '|' :: name) = some ([kind], name) ∨ kind = '|' := by
    intro kind name
    by_cases bar : kind = '|'
    · exact .inr bar
    · left
      simp [splitOnce, bar]
  rw [last_emitted] at ends
  unfold resumePoint resumeFrom
  rw [dialect, if_pos rfl, token]
  unfold nextToken
  cases dirs : items.commonPrefixes.getLast? with
  | some name =>
    rw [dirs] at ends
    cases ends
    have payload := (split 'p' name).resolve_right (by decide)
    simp only [Option.map_some, opens, Option.bind_some, payload]
    rfl
  | none =>
    cases files : items.contents.getLast? with
    | some e =>
      rw [dirs, files] at ends
      cases ends
      have payload := (split 'c' e.key).resolve_right (by decide)
      simp only [Option.map_some, opens, Option.bind_some, payload]
      rfl
    | none =>
      rw [dirs, files] at ends
      cases ends

omit opens in
theorem resume_marker (params : ListParams) (items : PageItems) (last : Item) (dialect : params.isV2 = false)
    (delimited : params.delimiter.isSome = true) (slashed : last.Slashed)
    (marker : params.marker = some ((items.commonPrefixes.getLast?.orElse fun _ =>
      items.contents.getLast?.map ListEntry.key).getD []))
    (ends : (emitted items).getLast? = some last) : (resumePoint wire params).map cursorOf = some (some last) := by
  rw [last_emitted] at ends
  unfold resumePoint resumeFrom
  rw [dialect, if_neg Bool.false_ne_true, marker]
  cases dirs : items.commonPrefixes.getLast? with
  | some name =>
    rw [dirs] at ends
    cases ends
    have inDirs : name.getLast? = some '/' ∧ params.delimiter.isSome = true := ⟨slashed, delimited⟩
    have named : ((some name).orElse fun _ => items.contents.getLast?.map ListEntry.key).getD [] = name := rfl
    simp only [named, Option.map_some, if_pos inDirs]
    rfl
  | none =>
    cases files : items.contents.getLast? with
    | some e =>
      rw [dirs, files] at ends
      cases ends
      have inFiles : ¬(e.key.getLast? = some '/' ∧ params.delimiter.isSome = true) := fun both => slashed both.1
      have named : ((none : Option Text).orElse fun _ => some e.key).getD [] = e.key := rfl
      simp only [Option.map_some, named, if_neg inFiles]
      rfl
    | none =>
      rw [dirs, files] at ends
      cases ends

omit opens in
/-- One page shows what the listing has behind the cursor, as far as there is room. -/
theorem page_simulates (params : ListParams) (cursor : Option Item) (entries : List ListEntry) (room : 1 ≤ params.cap)
    (point : (resumePoint wire params).map cursorOf = some cursor) :
    ∃ page, pageOf wire params entries = some page ∧
      emitted page.items = Cursors.page Item.Before params.cap cursor (matched params entries) ∧
      page.truncated = Cursors.more Item.Before params.cap cursor (matched params entries) ∧
      (page.truncated = true → page.token = some (nextToken wire page.items)) := by
  cases resumes : resumePoint wire params with
  | none =>
    rw [resumes] at point
    cases point
  | some resume =>
    rw [resumes] at point
    cases point
    have positive : params.cap ≠ 0 := by omega
    rw [pageOf, resumes, Option.map_some]
    refine ⟨_, rfl, ?_, ?_, fun truncated => if_pos truncated⟩
    · simp only [if_neg positive]
      rw [emitted_cut, emitted_resumed]
      rfl
    · simp only [if_neg positive]
      rw [truncated_cut, emitted_resumed]
      rfl

/-- The request for the next page resumes behind the last item of this one. -/
theorem follow_simulates (params : ListParams) (page : Page) (last : Item) (ends : (emitted page.items).getLast? = some last)
    (truncated : page.truncated = true) (token : page.token = some (nextToken wire page.items))
    (dialect : params.isV2 = true ∨ params.delimiter.isSome = true) (slashed : params.isV2 = false → last.Slashed) :
    (resumePoint wire (follow params page)).map cursorOf = some (some last) ∧ Plain (follow params page) := by
  unfold follow
  cases version : params.isV2 with
  | true =>
    rw [if_pos rfl]
    constructor
    · exact resume_token opens _ page.items last rfl token ends
    · intro _ missing
      exact absurd (token.symm.trans missing) (Option.some_ne_none _)
  | false =>
    rw [if_neg Bool.false_ne_true]
    have delimited : params.delimiter.isSome = true := dialect.resolve_left (by rw [version]; exact Bool.false_ne_true)
    constructor
    · exact resume_marker _ page.items last rfl delimited (slashed version)
        (if_pos ⟨truncated, delimited⟩) ends
    · intro modern
      exact absurd modern Bool.false_ne_true

/-- The client's walk is the walk of a cursor over what matches. -/
theorem walk_simulates (snapshots : List (List ListEntry)) (params : ListParams) (cursor : Option Item) (plain : Plain params)
    (room : 1 ≤ params.cap) (dialect : params.isV2 = true ∨ params.delimiter.isSome = true)
    (slashed : params.isV2 = false → ∀ entries ∈ snapshots, ∀ item ∈ matched params entries, item.Slashed)
    (point : (resumePoint wire params).map cursorOf = some cursor) :
    ∃ pages done, walk wire params snapshots = some (pages, done) ∧
      (pages.map fun page => emitted page.items, done) =
        Cursors.walk Item.Before params.cap cursor (snapshots.map (matched params)) := by
  induction snapshots generalizing params cursor with
  | nil => exact ⟨[], false, rfl, rfl⟩
  | cons entries later ih =>
    obtain ⟨page, answered, shown, cut, token⟩ := page_simulates params cursor entries room point
    rw [walk, answered, List.map_cons, Option.bind_eq_bind, Option.bind_some]
    cases truncated : page.truncated with
    | false =>
      rw [if_neg Bool.false_ne_true, Cursors.walk_last _ (cut.symm.trans truncated), ← shown]
      exact ⟨[page], true, rfl, rfl⟩
    | true =>
      have more : Cursors.more Item.Before params.cap cursor (matched params entries) = true := cut.symm.trans truncated
      obtain ⟨front, last, ends, next⟩ := Cursors.page_getLast room more
      have inside : last ∈ matched params entries :=
        @Cursors.mem_of_mem_page _ Item.Before _ _ _ _ last (by rw [ends]; simp)
      have resumes := follow_simulates opens params page last (by rw [shown]; exact next) truncated (token truncated) dialect
        fun version => slashed version entries List.mem_cons_self last inside
      have same := matched_follow params page plain resumes.2
      have dialect' : (follow params page).isV2 = true ∨ (follow params page).delimiter.isSome = true := by
        unfold follow
        cases version : params.isV2 with
        | true => exact .inl rfl
        | false => exact .inr (dialect.resolve_left (by rw [version]; exact Bool.false_ne_true))
      have version : (follow params page).isV2 = params.isV2 := by
        unfold follow
        cases params.isV2 <;> rfl
      obtain ⟨pages, done, walked, simulated⟩ := ih (follow params page) (some last) resumes.2
        (by rw [cap_follow]; exact room) dialect'
        (by rw [version, same]; exact fun old other member => slashed old other (List.mem_cons_of_mem _ member)) resumes.1
      rw [cap_follow, same] at simulated
      rw [if_pos rfl, Cursors.walk_more _ more, next, ← simulated, walked, ← shown]
      exact ⟨page :: pages, done, rfl, rfl⟩

/-- Over a listing that stays as it is the walk ends, with what was behind the cursor. -/
theorem walk_steady (entries : List ListEntry) (params : ListParams) (cursor : Option Item) (plain : Plain params)
    (room : 1 ≤ params.cap) (dialect : params.isV2 = true ∨ params.delimiter.isSome = true)
    (slashed : params.isV2 = false → ∀ item ∈ matched params entries, item.Slashed)
    (point : (resumePoint wire params).map cursorOf = some cursor) (distinct : (fileKeys entries).Nodup) :
    ∃ n pages, walk wire params (List.replicate n entries) = some (pages, true) ∧
      pages.flatMap (fun page => emitted page.items) = Cursors.rest Item.Before cursor (matched params entries) := by
  obtain ⟨pages, done, walked, simulated⟩ := walk_simulates opens
    (List.replicate ((Cursors.rest Item.Before cursor (matched params entries)).length + 1) entries) params cursor plain
    room dialect (fun old other member => List.eq_of_mem_replicate member ▸ slashed old) point
  have fixed := Cursors.walk_fixed room (matched_ascending params entries distinct) cursor _ (Nat.lt_succ_self _)
  rw [List.map_replicate] at simulated
  rw [← simulated] at fixed
  have finished : done = true := fixed.1
  rw [finished] at walked
  have emission : pages.flatMap (fun page => emitted page.items) =
      Cursors.rest Item.Before cursor (matched params entries) := fixed.2
  exact ⟨_, pages, walked, emission⟩

end Following

/-! The items of a request. -/

/-- The files that begin with the prefix and, under a delimiter, the directories. -/
def Matches (params : ListParams) (entries : List ListEntry) : Item → Prop
  | .file key => ∃ e ∈ entries, e.isDir = false ∧ params.keyPrefix.isPrefixOf e.key = true ∧ e.key = key
  | .dir name =>
      params.delimiter.isSome = true ∧
        ∃ e ∈ entries, e.isDir = true ∧ params.keyPrefix.isPrefixOf e.key = true ∧ e.key = name

theorem mem_emitted_file (items : PageItems) (key : Text) :
    Item.file key ∈ emitted items ↔ ∃ e ∈ items.contents, e.key = key := by
  simp [emitted]

theorem mem_emitted_dir (items : PageItems) (name : Text) : Item.dir name ∈ emitted items ↔ name ∈ items.commonPrefixes := by
  simp [emitted]

theorem mem_matched (params : ListParams) (entries : List ListEntry) (plain : Plain params) (tidy : Tidy entries)
    (item : Item) : item ∈ matched params entries ↔ Matches params entries item := by
  unfold matched
  cases item with
  | file key =>
    rw [mem_emitted_file]
    constructor
    · rintro ⟨e, member, rfl⟩
      have sorted := (List.mem_filter.mp member).1
      have file := List.mem_filter.mp ((List.perm_insertionSort _ _).mem_iff.mp sorted)
      have begins := List.mem_filter.mp file.1
      exact ⟨e, begins.1, by simpa using file.2, begins.2, rfl⟩
    · rintro ⟨e, member, file, begins, rfl⟩
      refine ⟨e, List.mem_filter.mpr ⟨(List.perm_insertionSort _ _).mem_iff.mpr ?_, plain.starts e.key⟩, rfl⟩
      exact List.mem_filter.mpr ⟨List.mem_filter.mpr ⟨member, begins⟩, by rw [file]; rfl⟩
  | dir name =>
    have once : ((((entries.filter fun e => params.keyPrefix.isPrefixOf e.key).filter fun e => e.isDir).map
        ListEntry.key).insertionSort NotAfter).Nodup := by
      apply (List.perm_insertionSort _ _).symm.nodup
      exact tidy.distinct.sublist ((List.filter_sublist.trans List.filter_sublist).map ListEntry.key)
    rw [mem_emitted_dir]
    unfold selectItems Matches
    by_cases delimited : params.delimiter.isSome = true
    · simp only [delimited, if_true, List.destutter_of_isChain _ _ once.isChain, List.mem_filter, plain.starts, and_true,
        (List.perm_insertionSort _ _).mem_iff, List.mem_map, true_and]
      constructor
      · rintro ⟨e, ⟨⟨member, begins⟩, dir⟩, rfl⟩
        exact ⟨e, member, dir, begins, rfl⟩
      · rintro ⟨e, member, dir, begins, rfl⟩
        exact ⟨e, ⟨⟨member, begins⟩, dir⟩, rfl⟩
    · simp [delimited]

theorem Tidy.slashed {params : ListParams} {entries : List ListEntry} (tidy : Tidy entries) (plain : Plain params)
    (item : Item) (member : item ∈ matched params entries) : item.Slashed := by
  have found := (mem_matched params entries plain tidy item).mp member
  cases item with
  | file key =>
    obtain ⟨e, inside, file, -, rfl⟩ := found
    exact tidy.files e inside file
  | dir name =>
    obtain ⟨-, e, inside, dir, -, rfl⟩ := found
    exact tidy.dirs e inside dir

/-! A walk over listings that change. -/

def shownItems (pages : List Page) : List Item := pages.flatMap fun page => emitted page.items

/-- What a client has seen after walking one page of each of the listings. -/
structure Seen (params : ListParams) (snapshots : List (List ListEntry)) (pages : List Page) (done : Bool) : Prop where
  once : (shownItems pages).Nodup
  blocks : ∀ page ∈ pages, (page.items.contents.Pairwise fun a b => a.key < b.key) ∧
    page.items.commonPrefixes.Pairwise (· < ·) ∧
    page.items.contents.length + page.items.commonPrefixes.length ≤ params.cap
  listed : ∀ (n : Nat) (page : Page), pages[n]? = some page →
    ∃ entries, snapshots[n]? = some entries ∧ ∀ item ∈ emitted page.items, Matches params entries item
  whole : done = true → ∀ item, (∀ entries ∈ snapshots.take pages.length, Matches params entries item) →
    (shownItems pages).count item = 1

section Changing
variable {wire : Wire} (opens : ∀ payload, wire.openToken (wire.signToken payload) = some payload)
include opens

theorem walk_seen (params : ListParams) (snapshots : List (List ListEntry)) (plain : Plain params)
    (room : 1 ≤ params.cap) (dialect : params.isV2 = true ∨ params.delimiter.isSome = true)
    (point : (resumePoint wire params).map cursorOf = some none) (tidy : ∀ entries ∈ snapshots, Tidy entries) :
    ∃ pages done, walk wire params snapshots = some (pages, done) ∧ Seen params snapshots pages done := by
  obtain ⟨pages, done, walked, simulated⟩ := walk_simulates opens snapshots params none plain room dialect
    (fun _ entries member => (tidy entries member).slashed plain) point
  have ascending : ∀ items ∈ snapshots.map (matched params), items.Pairwise Item.Before := by
    intro items member
    obtain ⟨entries, inside, rfl⟩ := List.mem_map.mp member
    exact matched_ascending params entries (tidy entries inside).fileKeys
  have ordered := (Cursors.walk_ascending room _ ascending none).1
  have complete := @Cursors.walk_complete _ Item.Before _ _ room _ ascending none
  have paged := @Cursors.walk_page _ Item.Before _ params.cap (snapshots.map (matched params)) none
  rw [← simulated] at ordered complete paged
  change (shownItems pages).Pairwise Item.Before at ordered
  have once : (shownItems pages).Nodup := ordered.imp fun {a b} before => by
    rintro rfl
    exact irrefl_of Item.Before a before
  refine ⟨pages, done, walked, once, ?_, ?_, ?_⟩
  · intro page member
    obtain ⟨n, nth⟩ := List.mem_iff_getElem?.mp member
    obtain ⟨items, resumed, -, shown⟩ := paged n (emitted page.items) (by rw [List.getElem?_map, nth]; rfl)
    have length := @Cursors.page_length _ Item.Before _ params.cap resumed items
    have sorted : (emitted page.items).Pairwise Item.Before :=
      (List.pairwise_flatten.mp ordered).1 _ (List.mem_map.mpr ⟨page, member, rfl⟩)
    rw [← shown, emitted_length] at length
    exact ⟨((emitted_ascending _).mp sorted).1, ((emitted_ascending _).mp sorted).2, length⟩
  · intro n page nth
    obtain ⟨items, resumed, source, shown⟩ := paged n (emitted page.items) (by rw [List.getElem?_map, nth]; rfl)
    rw [List.getElem?_map] at source
    obtain ⟨entries, taken, rfl⟩ := Option.map_eq_some_iff.mp source
    refine ⟨entries, taken, fun item member => ?_⟩
    apply (mem_matched params entries plain (tidy entries (List.mem_of_getElem? taken)) item).mp
    rw [shown] at member
    exact Cursors.mem_of_mem_page item member
  · intro finished item always
    apply List.count_eq_one_of_mem once
    apply complete finished item
    · rw [List.length_map, ← List.map_take]
      intro items member
      obtain ⟨entries, inside, rfl⟩ := List.mem_map.mp member
      exact (mem_matched params entries plain (tidy entries (List.mem_of_mem_take inside)) item).mpr (always entries inside)
    · intro c named
      cases named

end Changing

section Completeness
variable (hashes : Hashes) (tokenKey : List UInt8) (formParse : Text → List (Text × Text)) (iso8601 : Text → Option Text)

theorem wire_opens (sized : ∀ payload, (hashes.hmacSha256 tokenKey payload).length = 32) (payload : Text) :
    (wire hashes tokenKey formParse iso8601).openToken ((wire hashes tokenKey formParse iso8601).signToken payload) =
      some payload :=
  openToken_signToken hashes tokenKey sized payload

/-- From the first page on, a walk by tokens or by NextMarkers under a delimiter emits what
every listing it meets has, each item once, and over one listing it ends. -/
theorem paging_complete (params : ListParams) (sized : ∀ payload, (hashes.hmacSha256 tokenKey payload).length = 32)
    (first : params.continuationToken = none ∧ params.marker = none ∧ params.startAfter = none)
    (dialect : params.isV2 = true ∨ params.delimiter.isSome = true) (room : 1 ≤ params.cap) :
    (∀ snapshots, (∀ entries ∈ snapshots, Tidy entries) →
      ∃ pages done, walk (wire hashes tokenKey formParse iso8601) params snapshots = some (pages, done) ∧
        Seen params snapshots pages done) ∧
    ∀ entries, Tidy entries →
      ∃ n pages, walk (wire hashes tokenKey formParse iso8601) params (List.replicate n entries) = some (pages, true) := by
  have plain : Plain params := fun _ _ => first.2.2
  have opens := wire_opens hashes tokenKey formParse iso8601 sized
  have start : (resumePoint (wire hashes tokenKey formParse iso8601) params).map cursorOf = some none := by
    unfold resumePoint resumeFrom
    rw [first.1, first.2.1]
    cases params.isV2 <;> rfl
  constructor
  · intro snapshots tidy
    exact walk_seen opens params snapshots plain room dialect start tidy
  · intro entries tidy
    obtain ⟨n, pages, walked, -⟩ := walk_steady opens entries params none plain room dialect
      (fun _ => tidy.slashed plain) start tidy.fileKeys
    exact ⟨n, pages, walked⟩

end Completeness

/-! A walk that repeats its `start-after`. -/

def withoutStart (params : ListParams) : ListParams := { params with startAfter := none }

section Starting
variable (params : ListParams) (entries : List ListEntry)

theorem starts_withoutStart (name : Text) : (withoutStart params).starts name = true :=
  @Plain.starts (withoutStart params) (fun _ _ => rfl) name

/-- The `start-after` takes away from both blocks. -/
theorem selectItems_starts : selectItems entries params =
    ⟨(selectItems entries (withoutStart params)).contents.filter fun e => params.starts e.key,
      (selectItems entries (withoutStart params)).commonPrefixes.filter fun p => params.starts p⟩ := by
  have whole : ∀ xs : List ListEntry, xs.filter (fun e => (withoutStart params).starts e.key) = xs := fun xs =>
    List.filter_eq_self.mpr fun e _ => starts_withoutStart params e.key
  have every : ∀ xs : List Text, xs.filter (fun p => (withoutStart params).starts p) = xs := fun xs =>
    List.filter_eq_self.mpr fun p _ => starts_withoutStart params p
  conv_rhs => unfold selectItems
  simp only [whole, every]
  rfl

theorem starts_trans (a b : Text) (begins : params.starts a = true) (before : a < b) : params.starts b = true := by
  unfold ListParams.starts at begins ⊢
  by_cases first : params.isV2 = true ∧ params.continuationToken = none
  · rw [if_pos first] at begins ⊢
    cases after : params.startAfter with
    | none => rfl
    | some start =>
      rw [after] at begins
      exact decide_eq_true (List.lt_trans (of_decide_eq_true begins) before)
  · rw [if_neg first]

theorem starts_of_matched {name : Text} (member : Item.dir name ∈ matched params entries) : params.starts name = true := by
  have inside := (mem_emitted_dir _ name).mp member
  exact (List.mem_filter.mp inside).2

theorem starts_of_file {key : Text} (member : Item.file key ∈ matched params entries) : params.starts key = true := by
  obtain ⟨e, inside, rfl⟩ := (mem_emitted_file _ key).mp member
  exact (List.mem_filter.mp inside).2

/-- What is left behind a directory does not depend on the `start-after`. -/
theorem rest_dir (name : Text) (starts : params.starts name = true) :
    Cursors.rest Item.Before (some (.dir name)) (matched (withoutStart params) entries) =
      Cursors.rest Item.Before (some (.dir name)) (matched params entries) := by
  change Cursors.rest Item.Before (cursorOf (.afterPrefix name)) _ = Cursors.rest Item.Before (cursorOf (.afterPrefix name)) _
  rw [matched, matched, ← emitted_resumed, ← emitted_resumed, selectItems_starts params]
  simp only [resumed, List.filter_filter]
  congr 2
  apply List.filter_congr
  intro p _
  by_cases before : name < p
  · simp [before, starts_trans params name p starts before]
  · simp [before]

/-- Behind a file every directory is left, whatever the `start-after` says. -/
theorem rest_file (key : Text) (starts : params.starts key = true) :
    Cursors.rest Item.Before (some (.file key)) (matched (withoutStart params) entries) =
      ((selectItems entries params).contents.filter fun e => key < e.key).map (fun e => Item.file e.key) ++
        (selectItems entries (withoutStart params)).commonPrefixes.map Item.dir := by
  change Cursors.rest Item.Before (cursorOf (.afterContent key)) _ = _
  rw [matched, ← emitted_resumed, selectItems_starts params]
  simp only [resumed, emitted, List.filter_filter]
  congr 2
  apply List.filter_congr
  intro e _
  by_cases before : key < e.key
  · simp [before, starts_trans params key e.key starts before]
  · simp [before]

end Starting

/-- The next page of a V2 walk no longer looks at the `start-after`. -/
theorem matched_next (params : ListParams) (page : Page) (next : Plain (follow params page)) :
    matched (follow params page) = matched (withoutStart params) :=
  matched_plain (withoutStart params) (follow params page) (follow_keeps params page) (fun _ _ => rfl) next

/-- A first page that ends in a file has no room left behind the files; one that ends in a
directory had room for all of them. -/
theorem last_block (items : PageItems) (cap : Nat) (last : Item) (long : cap < (emitted items).length)
    (ends : ((emitted items).take cap).getLast? = some last) :
    cap ≤ items.contents.length ↔ ∃ key, last = .file key := by
  have parts : (emitted items).take cap = (items.contents.map fun e => Item.file e.key).take cap ++
      (items.commonPrefixes.take (cap - items.contents.length)).map Item.dir := by
    rw [emitted, List.take_append, List.length_map, List.map_take]
  rw [parts, List.getLast?_append] at ends
  rw [emitted_length] at long
  constructor
  · intro short
    have nothing : cap - items.contents.length = 0 := by omega
    rw [nothing, List.take_zero, List.map_nil, List.getLast?_nil, Option.none_or] at ends
    obtain ⟨e, -, named⟩ := List.mem_map.mp (List.mem_of_mem_take (List.mem_of_getLast? ends))
    exact ⟨e.key, named.symm⟩
  · rintro ⟨key, rfl⟩
    by_contra room
    have positive : 0 < (items.commonPrefixes.take (cap - items.contents.length)).length := by
      rw [List.length_take]
      omega
    rw [List.getLast?_map, List.getLast?_eq_some_getLast (List.ne_nil_of_length_pos positive), Option.map_some,
      Option.some_or] at ends
    cases ends

section Repeating
variable {wire : Wire} (opens : ∀ payload, wire.openToken (wire.signToken payload) = some payload)
include opens

theorem walk_after (params : ListParams) (entries : List ListEntry) (dialect : params.isV2 = true)
    (first : params.continuationToken = none) (room : 1 ≤ params.cap) (distinct : (fileKeys entries).Nodup) :
    ∃ n pages, walk wire params (List.replicate n entries) = some (pages, true) ∧
      shownItems pages =
        if params.cap < (matched params entries).length ∧ params.cap ≤ (selectItems entries params).contents.length then
          (selectItems entries params).contents.map (fun e => Item.file e.key) ++
            (selectItems entries (withoutStart params)).commonPrefixes.map Item.dir
        else matched params entries := by
  have start : (resumePoint wire params).map cursorOf = some none := by
    unfold resumePoint resumeFrom
    rw [dialect, first]
    rfl
  have all : Cursors.rest Item.Before none (matched params entries) = matched params entries :=
    List.filter_eq_self.mpr fun _ _ => rfl
  obtain ⟨page, answered, shown, cut, token⟩ := page_simulates params none entries room start
  cases truncated : page.truncated with
  | false =>
    have whole : Cursors.more Item.Before params.cap none (matched params entries) = false := cut.symm.trans truncated
    have short : ¬params.cap < (matched params entries).length := by
      rw [← all]
      exact of_decide_eq_false whole
    refine ⟨1, [page], ?_, ?_⟩
    · rw [List.replicate_one, walk, answered, Option.bind_eq_bind, Option.bind_some, truncated, if_neg Bool.false_ne_true]
    · rw [if_neg fun both => short both.1, shownItems, List.flatMap_singleton, shown, Cursors.page_of_whole whole, all]
  | true =>
    have more : Cursors.more Item.Before params.cap none (matched params entries) = true := cut.symm.trans truncated
    have long : params.cap < (matched params entries).length := by
      rw [← all]
      exact of_decide_eq_true more
    obtain ⟨front, last, ends, next⟩ := Cursors.page_getLast room more
    have inside : last ∈ matched params entries := @Cursors.mem_of_mem_page _ Item.Before _ _ _ _ last (by rw [ends]; simp)
    have modern : ¬params.isV2 = false := by
      rw [dialect]
      exact Bool.false_ne_true.symm
    have resumes := follow_simulates opens params page last (by rw [shown]; exact next) truncated (token truncated)
      (.inl dialect) fun old => absurd old modern
    have dialect' : (follow params page).isV2 = true := by
      rw [follow, if_pos dialect]
      exact dialect
    obtain ⟨n, pages, walked, emission⟩ := walk_steady opens entries (follow params page) (some last) resumes.2
      (by rw [cap_follow]; exact room) (.inl dialect') (fun old => absurd (dialect'.symm.trans old) Bool.false_ne_true.symm)
      resumes.1 distinct
    have firstPage : emitted page.items = (matched params entries).take params.cap := by
      rw [shown, Cursors.page, all]
    have block := last_block (selectItems entries params) params.cap last long (by rw [← next, Cursors.page, all]; rfl)
    have left := Cursors.rest_page (matched_ascending params entries distinct) ends
    rw [all] at left
    rw [matched_next params page resumes.2] at emission
    refine ⟨n + 1, page :: pages, ?_, ?_⟩
    · rw [List.replicate_succ, walk, answered, Option.bind_eq_bind, Option.bind_some, truncated, if_pos rfl, walked]
      rfl
    · rw [shownItems, List.flatMap_cons, emission, firstPage]
      cases last with
      | dir name =>
        have full : ¬params.cap ≤ (selectItems entries params).contents.length := by
          rw [block]
          rintro ⟨key, same⟩
          cases same
        rw [if_neg fun both => full both.2, rest_dir params entries name (starts_of_matched params entries inside), left]
        exact List.take_append_drop _ _
      | file key =>
        have fits := block.mpr ⟨key, rfl⟩
        have behind : ((selectItems entries params).contents.filter fun e => key < e.key).map (fun e => Item.file e.key) =
            ((selectItems entries params).contents.map fun e => Item.file e.key).drop params.cap := by
          have resumed := emitted_resumed (selectItems entries params) (.afterContent key)
          have dropped : (matched params entries).drop params.cap =
              ((selectItems entries params).contents.map fun e => Item.file e.key).drop params.cap ++
                (selectItems entries params).commonPrefixes.map Item.dir := by
            apply List.drop_append_of_le_length
            rw [List.length_map]
            exact fits
          exact List.append_cancel_right (resumed.trans (left.trans dropped))
        have taken : (matched params entries).take params.cap =
            ((selectItems entries params).contents.map fun e => Item.file e.key).take params.cap := by
          apply List.take_append_of_le_length
          rw [List.length_map]
          exact fits
        rw [if_pos ⟨long, fits⟩, rest_file params entries key (starts_of_file params entries inside), behind, taken,
          ← List.append_assoc, List.take_append_drop]

end Repeating

section StartAfter
variable (hashes : Hashes) (tokenKey : List UInt8) (formParse : Text → List (Text × Text)) (iso8601 : Text → Option Text)

/-- A V2 walk that repeats its `start-after`. It is ignored beside a token, so a first page
cut before the common prefixes leaves all of them to the later pages. -/
theorem start_after_paged (params : ListParams) (entries : List ListEntry)
    (sized : ∀ payload, (hashes.hmacSha256 tokenKey payload).length = 32) (dialect : params.isV2 = true)
    (first : params.continuationToken = none) (room : 1 ≤ params.cap) (distinct : (fileKeys entries).Nodup) :
    ∃ n pages, walk (wire hashes tokenKey formParse iso8601) params (List.replicate n entries) = some (pages, true) ∧
      (shownItems pages).Nodup ∧ (∀ item ∈ matched params entries, item ∈ shownItems pages) ∧
      shownItems pages =
        if params.cap < (matched params entries).length ∧ params.cap ≤ (selectItems entries params).contents.length then
          (selectItems entries params).contents.map (fun e => Item.file e.key) ++
            (selectItems entries (withoutStart params)).commonPrefixes.map Item.dir
        else matched params entries := by
  obtain ⟨n, pages, walked, shown⟩ := walk_after (wire_opens hashes tokenKey formParse iso8601 sized) params entries
    dialect first room distinct
  have once : ∀ items : List Item, items.Pairwise Item.Before → items.Nodup := fun items ordered =>
    ordered.imp fun {a b} before => by
      rintro rfl
      exact irrefl_of Item.Before a before
  refine ⟨n, pages, walked, ?_, ?_, shown⟩
  · apply once
    rw [shown]
    split_ifs with cutShort
    · exact (emitted_ascending ⟨(selectItems entries params).contents,
        (selectItems entries (withoutStart params)).commonPrefixes⟩).mpr
        ⟨contents_ascending params entries distinct, commonPrefixes_ascending (withoutStart params) entries⟩
    · exact matched_ascending params entries distinct
  · intro item member
    rw [shown]
    split_ifs with cutShort
    · cases item with
      | file key => exact List.mem_append_left _ (by simpa [matched, emitted] using member)
      | dir name =>
        have inside := (mem_emitted_dir _ name).mp member
        rw [selectItems_starts] at inside
        exact List.mem_append_right _ (List.mem_map.mpr ⟨name, (List.mem_filter.mp inside).1, rfl⟩)
    · exact member

end StartAfter

/-! One listing walked in pages of one item. -/

def sampleTokenKey : List UInt8 := List.replicate 32 0

def sampleTokens : Hashes where
  sha256 _ := []
  hmacSha256 _ data :=
    if data = utf8 ['c', '|', 'b'] then
      [1, 92, 230, 40, 190, 149, 151, 134, 0, 213, 193, 147, 226, 78, 90, 250, 139, 243, 217, 189, 198, 251, 184, 96,
        215, 138, 47, 8, 81, 13, 22, 203]
    else if data = utf8 ['c', '|', 'c'] then
      [255, 218, 234, 94, 20, 82, 249, 229, 251, 145, 236, 79, 130, 218, 165, 93, 213, 223, 11, 201, 246, 179, 19, 252,
        190, 48, 172, 48, 186, 249, 198, 238]
    else List.replicate 32 0

theorem sampleTokens_sized (payload : List UInt8) : (sampleTokens.hmacSha256 sampleTokenKey payload).length = 32 := by
  unfold sampleTokens
  dsimp only
  split_ifs <;> rfl

def sampleWire : Wire := wire sampleTokens sampleTokenKey (fun _ => []) (fun _ => none)

def sampleListing : List ListEntry :=
  [⟨['b'], 1, none, none, false⟩, ⟨['c'], 1, none, none, false⟩, ⟨['a', '/'], 0, none, none, true⟩]

def sampleParams : ListParams where
  isList := true
  isV2 := true
  keyPrefix := []
  delimiter := some ['/']
  maxKeysRaw := some ['1']
  continuationToken := none
  startAfter := none
  marker := none
  encodingUrl := false
  fetchOwner := false

theorem sampleListing_tidy : Tidy sampleListing where
  distinct := by decide
  dirs := by decide
  files := by decide

/-- A file and a directory come and go between the pages. -/
theorem paging_complete_sample :
    ∃ pages done, walk sampleWire sampleParams
        [sampleListing, sampleListing.tail, sampleListing, sampleListing] = some (pages, done) ∧
      Seen sampleParams [sampleListing, sampleListing.tail, sampleListing, sampleListing] pages done := by
  apply (paging_complete sampleTokens sampleTokenKey (fun _ => []) (fun _ => none) sampleParams sampleTokens_sized
    ⟨rfl, rfl, rfl⟩ (.inl rfl) (by decide)).1
  intro entries member
  simp only [List.mem_cons, List.not_mem_nil, or_false] at member
  have tail : Tidy sampleListing.tail := ⟨by decide, by decide, by decide⟩
  rcases member with rfl | rfl | rfl | rfl
  · exact sampleListing_tidy
  · exact tail
  · exact sampleListing_tidy
  · exact sampleListing_tidy

def startingParams : ListParams := { sampleParams with startAfter := some ['a', '0'] }

def doubledListing : List ListEntry := [⟨['b'], 1, none, none, false⟩, ⟨['b'], 2, none, none, false⟩]

/-- The directory is before the `start-after` and comes all the same; a key that is listed
twice is paged once. -/
theorem start_after_repeats :
    ((walk sampleWire startingParams (List.replicate 4 sampleListing)).map fun r => (shownItems r.1, r.2)) =
      some ([.file ['b'], .file ['c'], .dir ['a', '/']], true) ∧
    matched startingParams sampleListing = [.file ['b'], .file ['c']] ∧
    ((walk sampleWire startingParams (List.replicate 4 doubledListing)).map fun r => (shownItems r.1, r.2)) =
      some ([.file ['b']], true) ∧
    matched startingParams doubledListing = [.file ['b'], .file ['b']] := by
  decide +kernel

theorem start_after_paged_sample :
    ∃ n pages, walk sampleWire startingParams (List.replicate n sampleListing) = some (pages, true) ∧
      shownItems pages = [.file ['b'], .file ['c'], .dir ['a', '/']] := by
  obtain ⟨n, pages, walked, -, -, shown⟩ := start_after_paged sampleTokens sampleTokenKey (fun _ => []) (fun _ => none)
    startingParams sampleListing sampleTokens_sized rfl rfl (by decide) (by decide)
  exact ⟨n, pages, walked, shown.trans (by decide)⟩

end OriginCache.Request.Walks
