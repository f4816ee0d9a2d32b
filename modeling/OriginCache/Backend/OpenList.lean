import OriginCache.Foundation.Escapes
import OriginCache.Foundation.Trees
import OriginCache.Request.Walks

/-! Listing an OpenList upstream: one PROPFIND a directory, the directories yet to visit
on a stack, and the paths of the answers read back as keys. What a PROPFIND answers is a
parameter. -/

namespace OriginCache.Backend.OpenList
open Foundation.Splits Foundation.Percent Foundation.Escapes Foundation.Trees
open Request.Listing (BackendError ListEntry trimSlashes)
open Cache.SegName (Text)

def maxListEntries : Nat := 50000

def maxListDepth : Nat := 64

structure Config where
  baseUrl : Text
  rootPath : Option Text
deriving DecidableEq, Repr

def trimEnd (path : Text) : Text := (path.reverse.dropWhile (· = '/')).reverse

/-- `from_config` takes the trailing slashes from the configured URL. -/
def Config.trimmed (config : Config) : Text := trimEnd config.baseUrl

def schemeMark : Text := [':', '/', '/']

/-- `str::split_once` at a text. -/
def splitAtText (mark : Text) : Text → Option (Text × Text)
  | [] => if mark = [] then some ([], []) else none
  | c :: rest =>
      match stripPrefix mark (c :: rest) with
      | some after => some ([], after)
      | none => (splitAtText mark rest).map fun parts => (c :: parts.1, parts.2)

def davFolder (rootPath : Option Text) (folder : Text) : Text :=
  let root := (rootPath.map trimSlashes).getD []
  if root = [] then '/' :: folder else '/' :: root ++ '/' :: folder

def baseUrlPath (baseUrl : Text) : Text :=
  let rest := ((splitAtText schemeMark baseUrl).map Prod.snd).getD baseUrl
  match splitOnce '/' rest with
  | some (_, p) => if p = [] then [] else '/' :: p
  | none => []

def hrefToPath (href : Text) : Text :=
  let path :=
    match splitAtText schemeMark href with
    | some (_, rest) =>
        match splitOnce '/' rest with
        | some (_, p) => '/' :: p
        | none => ['/']
    | none => href
  decodeLossy path

/-- The empty name is the folder itself. -/
def stripBase (base hrefPath : Text) : Option Text :=
  match stripPrefix (trimEnd base) (trimEnd hrefPath) with
  | none => none
  | some [] => some []
  | some rest => stripPrefix ['/'] rest

def validateFolder (folder : Text) : Except BackendError Unit :=
  if '\x00' ∈ folder ∨ '\\' ∈ folder ∨ folder.head? = some '/' then .error .other
  else if ['.', '.'] ∈ folder.splitOn '/' then .error .other
  else .ok ()

def mapStatus (status : Nat) : BackendError :=
  if status = 404 then .notFound
  else if status = 429 then .rateLimited none
  else if status = 401 ∨ status = 403 then .authRequired
  else if 500 ≤ status ∧ status ≤ 599 then .serverError
  else .other

/-- What the WebDAV client fails with. -/
inductive DavError
  | statusMismatched (code : Nat) | server | reqwest (unreachable : Bool) | other
deriving DecidableEq, Repr

def mapDavError : DavError → BackendError
  | .statusMismatched code => mapStatus code
  | .server => .serverError
  | .reqwest unreachable => if unreachable then .serverError else .other
  | .other => .other

/-- What an answer says of one file or folder; the date is as `to_rfc2822` writes it. -/
structure Info where
  contentLength : Int
  tag : Option Text
  lastModified : Text
deriving DecidableEq, Repr

inductive ListEntity
  | file (href : Text) (info : Info)
  | folder (href : Text) (info : Info)
deriving DecidableEq, Repr

/-- A directory yet to visit: its DAV path, the prefix of its children's keys, its depth. -/
structure Work where
  davDir : Text
  keyPrefix : Text
  depth : Nat
deriving DecidableEq, Repr

structure Walk where
  queue : List Work
  out : List ListEntry

def fileEntry (key : Text) (info : Info) : ListEntry :=
  ⟨key, info.contentLength.toNat, info.tag, some info.lastModified, false⟩

def dirEntry (key : Text) (info : Info) : ListEntry := ⟨key, 0, info.tag, some info.lastModified, true⟩

/-- One item of an answer. -/
def takeItem (recursive : Bool) (base : Text) (work : Work) (walk : Walk) : ListEntity → Walk
  | .file href info =>
      let name := (stripBase base (hrefToPath href)).getD []
      if name = [] ∨ name.getLast? = some '/' then walk
      else { walk with out := walk.out ++ [fileEntry (work.keyPrefix ++ name) info] }
  | .folder href info =>
      let name := trimEnd ((stripBase base (hrefToPath href)).getD [])
      if name = [] then walk
      else if recursive then
        if maxListDepth ≤ work.depth + 1 then walk
        else { walk with queue := ⟨work.davDir ++ name ++ ['/'], work.keyPrefix ++ name ++ ['/'], work.depth + 1⟩ :: walk.queue }
      else { walk with out := walk.out ++ [dirEntry (work.keyPrefix ++ name ++ ['/']) info] }

section Listing
variable (propfind : Text → Except DavError (List ListEntity))

/-- The directories still to visit, the last found first; nothing when `fuel` answers were
not enough. -/
@[grind =] def listFrom (hrefBase : Text) (recursive : Bool) : Nat → List Work → List ListEntry →
    Option (Except BackendError (List ListEntry))
  | _, [], out => some (.ok out)
  | 0, _ :: _, _ => none
  | fuel + 1, work :: queue, out =>
      match propfind work.davDir with
      | .error e => some (.error (mapDavError e))
      | .ok items =>
          let walk := items.foldl (takeItem recursive (hrefBase ++ work.davDir) work) ⟨queue, out⟩
          if maxListEntries < walk.out.length then some (.ok (walk.out.take maxListEntries))
          else listFrom hrefBase recursive fuel walk.queue walk.out

def list (config : Config) (fuel : Nat) (folder : Text) (recursive : Bool) :
    Option (Except BackendError (List ListEntry)) :=
  match validateFolder folder with
  | .error e => some (.error e)
  | .ok () =>
      listFrom propfind (baseUrlPath config.trimmed) recursive fuel
        [⟨davFolder config.rootPath folder, folder, 0⟩] []

end Listing

/-! What a server answers. -/

def ListEntity.href : ListEntity → Text
  | .file href _ => href
  | .folder href _ => href

/-- A path as an href has it: alone, or behind a scheme and an authority. -/
inductive Addresses (path : Text) : Text → Prop
  | alone (unmarked : splitAtText schemeMark path = none) : Addresses path path
  | absolute (scheme authority : Text) (plain : ':' ∉ scheme) (bounded : '/' ∉ authority) :
      Addresses path (scheme ++ schemeMark ++ (authority ++ path))

/-- The href of a resource below the base: its path is the one of the base and then the
resource's, whatever is escaped in it, and slashes may follow. -/
def Points (hrefBase resource href : Text) : Prop :=
  ∃ path slashes, Addresses ('/' :: path) href ∧ (∀ c ∈ slashes, c = '/') ∧
    decodeBytes (utf8 ('/' :: path)) = decodeBytes (utf8 hrefBase) ++ utf8 (resource ++ slashes)

/-- An answer of depth 1: every child of the directory once, and the directory itself as
often as the server likes. -/
inductive Lists (hrefBase dir : Text) : Tree Char Info → List ListEntity → Prop
  | nil : Lists hrefBase dir .nil []
  | itself (item : ListEntity) (tree : Tree Char Info) (items : List ListEntity)
      (points : Points hrefBase dir.dropLast item.href) (rest : Lists hrefBase dir tree items) :
      Lists hrefBase dir tree (item :: items)
  | file (name : Text) (info : Info) (href : Text) (tree : Tree Char Info) (items : List ListEntity)
      (points : Points hrefBase (dir ++ name) href) (rest : Lists hrefBase dir tree items) :
      Lists hrefBase dir (.file name info tree) (.file href info :: items)
  | folder (name : Text) (inside : Tree Char Info) (info : Info) (href : Text) (tree : Tree Char Info)
      (items : List ListEntity) (points : Points hrefBase (dir ++ name) href) (rest : Lists hrefBase dir tree items) :
      Lists hrefBase dir (.dir name inside tree) (.folder href info :: items)

/-- Every directory of the tree is answered with its children. Of a folder the tree has
not, an answer holds no children. -/
structure Serves (config : Config) (tree : Tree Char Info) (propfind : Text → Except DavError (List ListEntity)) :
    Prop where
  found : ∀ names sub, tree.find names = some sub → ∃ items,
    propfind (davFolder config.rootPath (folderOf '/' names)) = .ok items ∧
      Lists (baseUrlPath config.trimmed) (davFolder config.rootPath (folderOf '/' names)) sub items
  missing : ∀ names items, (∀ name ∈ names, '/' ∉ name) → tree.find names = none →
    propfind (davFolder config.rootPath (folderOf '/' names)) = .ok items → ∀ item ∈ items,
      Points (baseUrlPath config.trimmed) (davFolder config.rootPath (folderOf '/' names)).dropLast item.href

/-! Paths and their trailing slashes. -/

section Paths

theorem trimEnd_slashes (path slashes : Text) (only : ∀ c ∈ slashes, c = '/') :
    trimEnd (path ++ slashes) = trimEnd path := by
  have all : ∀ c ∈ slashes.reverse, decide (c = '/') = true := fun c member =>
    decide_eq_true (only c (List.mem_reverse.mp member))
  rw [trimEnd, List.reverse_append, List.dropWhile_append_of_pos all, trimEnd]

theorem trimEnd_bare (path : Text) (bare : path.getLast? ≠ some '/') : trimEnd path = path := by
  cases path using List.reverseRecOn with
  | nil => rfl
  | append_singleton front c =>
    have other : c ≠ '/' := by
      rintro rfl
      exact bare List.getLast?_concat
    rw [trimEnd, List.reverse_concat, List.dropWhile_cons_of_neg (by simpa using other), ← List.reverse_concat,
      List.reverse_reverse]

theorem trimEnd_begins (path : Text) : trimEnd path <+: path := by
  have suffix : path.reverse.dropWhile (· = '/') <:+ path.reverse := List.dropWhile_suffix _
  rw [← List.reverse_prefix, List.reverse_reverse] at suffix
  exact suffix

theorem bare_trimEnd (path : Text) : (trimEnd path).getLast? ≠ some '/' := by
  rw [trimEnd, List.getLast?_reverse]
  intro slash
  have head := List.head?_dropWhile_not (fun c => decide (c = '/')) path.reverse
  rw [slash] at head
  cases head

theorem prefix_trimEnd (front back : Text) (bare : front.getLast? ≠ some '/') : front <+: trimEnd (front ++ back) := by
  rw [trimEnd, List.reverse_append, List.dropWhile_append]
  split_ifs
  · change front <+: trimEnd front
    rw [trimEnd_bare front bare]
  · rw [List.reverse_append, List.reverse_reverse]
    exact List.prefix_append front _

theorem bare_append (front back : Text) (bare : front.getLast? ≠ some '/') (bare' : back.getLast? ≠ some '/') :
    (front ++ back).getLast? ≠ some '/' := by
  rw [List.getLast?_append]
  cases last : back.getLast? with
  | none => exact bare
  | some c =>
    rw [last] at bare'
    exact bare'

theorem bare_of_free (name : Text) (free : '/' ∉ name) : name.getLast? ≠ some '/' := fun slash =>
  free (List.mem_of_getLast? slash)

theorem splitAtText_some (mark whole before after : Text) (cut : splitAtText mark whole = some (before, after)) :
    whole = before ++ mark ++ after := by
  induction whole generalizing before with
  | nil =>
    rw [splitAtText] at cut
    split_ifs at cut with empty
    cases cut
    rw [empty]
    rfl
  | cons c rest ih =>
    rw [splitAtText] at cut
    cases here : stripPrefix mark (c :: rest) with
    | some tail =>
      rw [here] at cut
      cases cut
      rw [stripPrefix] at here
      split_ifs at here with begins
      cases here
      exact (List.prefix_iff_eq_append.mp (List.isPrefixOf_iff_prefix.mp begins)).symm
    | none =>
      rw [here] at cut
      obtain ⟨parts, later, same⟩ := Option.map_eq_some_iff.mp cut
      cases same
      rw [ih parts.1 later]
      rfl

theorem splitAtText_scheme (scheme after : Text) (plain : ':' ∉ scheme) :
    splitAtText schemeMark (scheme ++ schemeMark ++ after) = some (scheme, after) := by
  induction scheme with
  | nil =>
    change splitAtText schemeMark (':' :: ('/' :: '/' :: after)) = _
    rw [splitAtText]
    rfl
  | cons c scheme ih =>
    have other : c ≠ ':' := fun same => plain (same ▸ List.mem_cons_self)
    have unmarked : stripPrefix schemeMark (c :: (scheme ++ schemeMark ++ after)) = none := by
      rw [stripPrefix, if_neg]
      intro begins
      exact other (List.cons_prefix_cons.mp (List.isPrefixOf_iff_prefix.mp begins)).1.symm
    rw [List.cons_append, List.cons_append, splitAtText, unmarked, ih fun member => plain (List.mem_cons_of_mem c member)]
    rfl

/-- Whatever form an href has, its path is what is decoded. -/
theorem hrefToPath_of (path href : Text) (addresses : Addresses ('/' :: path) href) :
    hrefToPath href = decodeLossy ('/' :: path) := by
  unfold hrefToPath
  cases addresses with
  | alone unmarked => rw [unmarked]
  | absolute scheme authority plain bounded =>
    rw [splitAtText_scheme scheme _ plain]
    simp only [splitOnce_append '/' authority path bounded]

theorem baseUrlPath_bare (baseUrl : Text) (bare : baseUrl.getLast? ≠ some '/') :
    (baseUrlPath baseUrl).getLast? ≠ some '/' := by
  have tail : ∀ front p, baseUrl = front ++ p → p ≠ [] → p.getLast? ≠ some '/' := by
    intro front p whole full
    rw [whole, List.getLast?_append_of_ne_nil front full] at bare
    exact bare
  have rest : ∃ front, baseUrl = front ++ ((splitAtText schemeMark baseUrl).map Prod.snd).getD baseUrl := by
    cases cut : splitAtText schemeMark baseUrl with
    | none => exact ⟨[], rfl⟩
    | some parts => exact ⟨parts.1 ++ schemeMark, splitAtText_some _ _ parts.1 parts.2 cut⟩
  obtain ⟨front, whole⟩ := rest
  have empty : ([] : Text).getLast? ≠ some '/' := by decide
  rw [baseUrlPath]
  cases cut : splitOnce '/' (((splitAtText schemeMark baseUrl).map Prod.snd).getD baseUrl) with
  | none =>
    simp only
    exact empty
  | some parts =>
    simp only
    split_ifs
    · exact empty
    · rw [splitOnce_some '/' _ parts.1 parts.2 cut] at whole
      exact tail (front ++ parts.1) ('/' :: parts.2) (by simpa using whole) (List.cons_ne_nil _ _)

/-- Nothing, or an absolute path. -/
def Rooted (path : Text) : Prop := path = [] ∨ ∃ more, path = '/' :: more

theorem Rooted.append {path : Text} (rooted : Rooted path) (name : Text) (full : path ≠ []) : Rooted (path ++ name) := by
  rcases rooted with empty | ⟨more, rfl⟩
  · exact absurd empty full
  · exact .inr ⟨more ++ name, rfl⟩

theorem Rooted.dropLast {path : Text} (rooted : Rooted path) : Rooted path.dropLast := by
  rcases rooted with rfl | ⟨more, rfl⟩
  · exact .inl rfl
  · cases more with
    | nil => exact .inl rfl
    | cons c more => exact .inr ⟨_, List.dropLast_cons_cons⟩

theorem rooted_slashes (path slashes : Text) (rooted : Rooted path) (only : ∀ c ∈ slashes, c = '/') :
    Rooted (path ++ slashes) := by
  rcases rooted with rfl | ⟨more, rfl⟩
  · cases slashes with
    | nil => exact .inl rfl
    | cons c slashes => exact .inr ⟨slashes, congrArg (· :: slashes) (only c List.mem_cons_self)⟩
  · exact .inr ⟨more ++ slashes, rfl⟩

/-- The root path in front of every folder. -/
def davRoot (rootPath : Option Text) : Text :=
  let root := (rootPath.map trimSlashes).getD []
  if root = [] then [] else '/' :: root

theorem davFolder_eq (rootPath : Option Text) (folder : Text) :
    davFolder rootPath folder = davRoot rootPath ++ '/' :: folder := by
  unfold davFolder davRoot
  simp only
  split_ifs <;> rfl

theorem rooted_davFolder (rootPath : Option Text) (folder : Text) : Rooted (davFolder rootPath folder) := by
  unfold davFolder
  simp only
  split_ifs
  · exact .inr ⟨folder, rfl⟩
  · exact .inr ⟨_, rfl⟩

theorem davRoot_bare (rootPath : Option Text) : (davRoot rootPath).getLast? ≠ some '/' := by
  have root : ((rootPath.map trimSlashes).getD []).getLast? ≠ some '/' := by
    cases rootPath with
    | none => exact fun slash => by cases slash
    | some path => exact bare_trimEnd (path.dropWhile (· = '/'))
  unfold davRoot
  simp only
  split_ifs with empty
  · exact fun slash => by cases slash
  · rw [← List.singleton_append, List.getLast?_append_of_ne_nil ['/'] empty]
    exact root

theorem davFolder_concat (rootPath : Option Text) (names : List Text) (name : Text) :
    davFolder rootPath (folderOf '/' (names ++ [name])) =
      davFolder rootPath (folderOf '/' names) ++ name ++ ['/'] := by
  rw [davFolder_eq, davFolder_eq, folderOf_append, folderOf_cons, folderOf, folderOf, List.flatMap_nil, List.append_nil]
  simp

theorem davFolder_ends (rootPath : Option Text) (names : List Text) :
    davFolder rootPath (folderOf '/' names) = (davFolder rootPath (folderOf '/' names)).dropLast ++ ['/'] := by
  cases names using List.reverseRecOn with
  | nil =>
    rw [davFolder_eq, show davRoot rootPath ++ '/' :: folderOf '/' [] = davRoot rootPath ++ ['/'] from rfl,
      List.dropLast_concat]
  | append_singleton names name => rw [davFolder_concat, List.dropLast_concat]

/-- Behind the last name of a path stands one slash. -/
theorem davFolder_bare (rootPath : Option Text) (names : List Text) (solid : ∀ name ∈ names, name ≠ [] ∧ '/' ∉ name) :
    (davFolder rootPath (folderOf '/' names)).dropLast.getLast? ≠ some '/' := by
  cases names using List.reverseRecOn with
  | nil =>
    rw [davFolder_eq, show davRoot rootPath ++ '/' :: folderOf '/' [] = davRoot rootPath ++ ['/'] from rfl,
      List.dropLast_concat]
    exact davRoot_bare rootPath
  | append_singleton names name =>
    have last := solid name (by simp)
    rw [davFolder_concat, List.dropLast_concat, List.getLast?_append_of_ne_nil _ last.1]
    exact bare_of_free name last.2

end Paths

/-! An answer's paths, read back. -/

section Reading
variable {hrefBase : Text}

theorem hrefToPath_points (resource href : Text) (points : Points hrefBase resource href) :
    ∃ slashes, (∀ c ∈ slashes, c = '/') ∧
      hrefToPath href = fromUtf8Lossy (decodeBytes (utf8 hrefBase) ++ utf8 (resource ++ slashes)) := by
  obtain ⟨path, slashes, addresses, only, bytes⟩ := points
  refine ⟨slashes, only, ?_⟩
  rw [hrefToPath_of path href addresses, decodeLossy, bytes]

theorem hrefToPath_straight (straight : decodeBytes (utf8 hrefBase) = utf8 hrefBase) (resource href : Text)
    (points : Points hrefBase resource href) :
    ∃ slashes, (∀ c ∈ slashes, c = '/') ∧ hrefToPath href = hrefBase ++ resource ++ slashes := by
  obtain ⟨slashes, only, path⟩ := hrefToPath_points resource href points
  refine ⟨slashes, only, ?_⟩
  rw [path, straight, ← utf8_append, fromUtf8Lossy_utf8, List.append_assoc]

theorem stripBase_itself (straight : decodeBytes (utf8 hrefBase) = utf8 hrefBase) (dir href : Text)
    (ends : dir = dir.dropLast ++ ['/']) (points : Points hrefBase dir.dropLast href) :
    stripBase (hrefBase ++ dir) (hrefToPath href) = some [] := by
  obtain ⟨slashes, only, path⟩ := hrefToPath_straight straight dir.dropLast href points
  have base : trimEnd (hrefBase ++ dir) = trimEnd (hrefBase ++ dir.dropLast) := by
    conv_lhs => rw [ends, ← List.append_assoc]
    exact trimEnd_slashes _ ['/'] (by simp)
  have whole := stripPrefix_append (trimEnd (hrefBase ++ dir.dropLast)) []
  rw [List.append_nil] at whole
  rw [stripBase, path, trimEnd_slashes _ slashes only, base, whole]

theorem stripBase_child (straight : decodeBytes (utf8 hrefBase) = utf8 hrefBase) (bare : hrefBase.getLast? ≠ some '/')
    (dir name href : Text) (ends : dir = dir.dropLast ++ ['/']) (bare' : dir.dropLast.getLast? ≠ some '/')
    (named : name ≠ []) (free : '/' ∉ name) (points : Points hrefBase (dir ++ name) href) :
    stripBase (hrefBase ++ dir) (hrefToPath href) = some name := by
  obtain ⟨slashes, only, path⟩ := hrefToPath_straight straight (dir ++ name) href points
  have whole : hrefBase ++ (dir ++ name) = hrefBase ++ dir.dropLast ++ '/' :: name := by
    conv_lhs => rw [ends]
    simp
  have last : (hrefBase ++ (dir ++ name)).getLast? ≠ some '/' := by
    rw [← List.append_assoc, List.getLast?_append_of_ne_nil _ named]
    exact bare_of_free name free
  have base : trimEnd (hrefBase ++ dir) = hrefBase ++ dir.dropLast := by
    conv_lhs => rw [ends, ← List.append_assoc]
    rw [trimEnd_slashes _ ['/'] (by simp)]
    exact trimEnd_bare _ (bare_append _ _ bare bare')
  rw [stripBase, path, trimEnd_slashes _ slashes only, trimEnd_bare _ last, base, whole, stripPrefix_append]
  exact stripPrefix_append ['/'] name

/-- Under a base with an escape in it nothing is found. -/
theorem stripBase_escaped (escaped : decodeBytes (utf8 hrefBase) ≠ utf8 hrefBase) (bare : hrefBase.getLast? ≠ some '/')
    (dir resource href : Text) (rooted : Rooted resource) (points : Points hrefBase resource href) :
    stripBase (hrefBase ++ dir) (hrefToPath href) = none := by
  obtain ⟨slashes, only, path⟩ := hrefToPath_points resource href points
  have begins := prefix_trimEnd hrefBase dir bare
  have closed : utf8 (resource ++ slashes) = [] ∨ ∃ more, utf8 (resource ++ slashes) = String.utf8EncodeChar '/' ++ more := by
    rcases rooted_slashes resource slashes rooted only with empty | ⟨more, slash⟩
    · exact .inl (by rw [empty]; rfl)
    · exact .inr ⟨utf8 more, by rw [slash, utf8_cons]⟩
  have apart := escape_moves '/' _ closed outside_slash hrefBase escaped
  rw [stripBase, stripPrefix, if_neg]
  intro within
  apply apart
  rw [← path]
  exact (begins.trans (List.isPrefixOf_iff_prefix.mp within)).trans (trimEnd_begins _)

end Reading

/-! One answer. -/

section Answers
variable {hrefBase : Text}

theorem takeItem_unread (recursive : Bool) (base : Text) (work : Work) (walk : Walk) (item : ListEntity)
    (unread : (stripBase base (hrefToPath item.href)).getD [] = []) : takeItem recursive base work walk item = walk := by
  cases item with
  | file href info => exact if_pos (.inl unread)
  | folder href info =>
    change (stripBase base (hrefToPath href)).getD [] = [] at unread
    rw [takeItem, unread]
    exact if_pos rfl

theorem foldl_unread (recursive : Bool) (base : Text) (work : Work) (walk : Walk) (items : List ListEntity)
    (unread : ∀ item ∈ items, (stripBase base (hrefToPath item.href)).getD [] = []) :
    items.foldl (takeItem recursive base work) walk = walk := by
  induction items with
  | nil => rfl
  | cons item items ih =>
    rw [List.foldl_cons, takeItem_unread recursive base work walk item (unread item List.mem_cons_self)]
    exact ih fun other member => unread other (List.mem_cons_of_mem item member)

/-- The directory that a walk finds under a name. -/
def Work.child (work : Work) (name : Text) : Work :=
  ⟨work.davDir ++ name ++ ['/'], work.keyPrefix ++ name ++ ['/'], work.depth + 1⟩

/-- Under a base with an escape in it an answer adds nothing. -/
theorem lists_unread (escaped : decodeBytes (utf8 hrefBase) ≠ utf8 hrefBase) (bare : hrefBase.getLast? ≠ some '/')
    (dir : Text) (rooted : Rooted dir) (full : dir ≠ []) (sub : Tree Char Info) (items : List ListEntity)
    (lists : Lists hrefBase dir sub items) :
    ∀ item ∈ items, (stripBase (hrefBase ++ dir) (hrefToPath item.href)).getD [] = [] := by
  have one : ∀ resource href, Rooted resource → Points hrefBase resource href →
      (stripBase (hrefBase ++ dir) (hrefToPath href)).getD [] = [] := by
    intro resource href rooted points
    rw [stripBase_escaped escaped bare dir resource href rooted points]
    rfl
  induction lists with
  | nil => exact fun item member => by cases member
  | itself item tree items points rest ih =>
    exact List.forall_mem_cons.mpr ⟨one _ item.href rooted.dropLast points, ih⟩
  | file name info href tree items points rest ih =>
    exact List.forall_mem_cons.mpr ⟨one _ href (rooted.append name full) points, ih⟩
  | folder name inside info href tree items points rest ih =>
    exact List.forall_mem_cons.mpr ⟨one _ href (rooted.append name full) points, ih⟩

/-- An answer adds the files to what was found, and the directories to what is left. -/
theorem foldl_lists (straight : decodeBytes (utf8 hrefBase) = utf8 hrefBase) (bare : hrefBase.getLast? ≠ some '/')
    (work : Work) (ends : work.davDir = work.davDir.dropLast ++ ['/']) (bare' : work.davDir.dropLast.getLast? ≠ some '/')
    (sub : Tree Char Info) (named : sub.Named '/') (items : List ListEntity)
    (lists : Lists hrefBase work.davDir sub items) (shallow : work.depth + sub.depth < maxListDepth)
    (queue : List Work) (out : List ListEntry) :
    items.foldl (takeItem true (hrefBase ++ work.davDir) work) ⟨queue, out⟩ =
      ⟨(sub.subdirs.map fun dir => work.child dir.1).reverse ++ queue,
        out ++ (sub.direct work.keyPrefix).map fun file => fileEntry file.1 file.2⟩ := by
  induction lists generalizing queue out with
  | nil => simp [Tree.subdirs, Tree.direct, Tree.files]
  | itself item tree items points rest ih =>
    have unread := stripBase_itself straight work.davDir item.href ends points
    rw [List.foldl_cons, takeItem_unread _ _ _ _ item (by rw [unread]; rfl)]
    exact ih named shallow queue out
  | file name info href tree items points rest ih =>
    have read := stripBase_child straight bare work.davDir name href ends bare' named.1 named.2.1 points
    have solid : ¬(name = [] ∨ name.getLast? = some '/') := fun either =>
      either.elim named.1 (bare_of_free name named.2.1)
    rw [List.foldl_cons, takeItem, read, Option.getD_some, if_neg solid, ih named.2.2.2 shallow]
    simp [Tree.subdirs, Tree.direct, Tree.files]
  | folder name inside info href tree items points rest ih =>
    have read := stripBase_child straight bare work.davDir name href ends bare' named.1 named.2.1 points
    have depths : inside.depth + 1 ≤ (Tree.dir name inside tree : Tree Char Info).depth ∧
        tree.depth ≤ (Tree.dir name inside tree : Tree Char Info).depth := ⟨le_max_left _ _, le_max_right _ _⟩
    have deep : ¬ maxListDepth ≤ work.depth + 1 := by omega
    rw [List.foldl_cons, takeItem, read, Option.getD_some, trimEnd_bare name (bare_of_free name named.2.1),
      if_neg named.1, if_pos rfl, if_neg deep, ih named.2.2.2.2 (by omega)]
    simp [Tree.subdirs, Tree.direct, Tree.files, Work.child]

end Answers

/-! A walk over a tree. -/

/-- A directory of the tree that the walk has yet to visit. -/
structure Pending where
  names : List Text
  inside : Tree Char Info
  depth : Nat

def Pending.work (config : Config) (pending : Pending) : Work :=
  ⟨davFolder config.rootPath (folderOf '/' pending.names), folderOf '/' pending.names, pending.depth⟩

def Pending.inner (pending : Pending) : List Pending :=
  pending.inside.subdirs.map fun dir => ⟨pending.names ++ [dir.1], dir.2, pending.depth + 1⟩

def entryOf (file : Text × Info) : ListEntry := fileEntry file.1 file.2

def Pending.entries (pending : Pending) : List ListEntry :=
  (pending.inside.visited '/' (folderOf '/' pending.names)).map entryOf

structure Pending.Sound (tree : Tree Char Info) (pending : Pending) : Prop where
  found : tree.find pending.names = some pending.inside
  shallow : pending.depth + pending.inside.depth < maxListDepth

theorem child_work (config : Config) (names : List Text) (inside : Tree Char Info) (depth : Nat) (name : Text)
    (sub : Tree Char Info) : (Pending.work config ⟨names, inside, depth⟩).child name =
      Pending.work config ⟨names ++ [name], sub, depth + 1⟩ := by
  have key : folderOf '/' names ++ name ++ ['/'] = folderOf '/' (names ++ [name]) := by
    rw [folderOf_append, folderOf_cons, show folderOf '/' ([] : List Text) = [] from rfl, List.append_nil,
      List.append_assoc]
  unfold Pending.work Work.child
  rw [davFolder_concat, key]

theorem inner_work (config : Config) (pending : Pending) :
    (pending.inside.subdirs.map fun dir => (pending.work config).child dir.1) = pending.inner.map (Pending.work config) := by
  rw [Pending.inner, List.map_map]
  apply List.map_congr_left
  intro dir _
  exact child_work config pending.names pending.inside pending.depth dir.1 dir.2

/-- The order of the walk: a directory's own files, then what is below it. -/
theorem entries_inner (pending : Pending) : pending.entries =
    (pending.inside.direct (folderOf '/' pending.names)).map entryOf ++
      pending.inner.reverse.flatMap Pending.entries := by
  unfold Pending.entries Pending.inner
  rw [Tree.visited, List.map_append, deeper_subdirs, List.map_flatMap, ← List.map_reverse, List.flatMap_map]
  congr 2
  funext dir
  rw [folderOf_append, folderOf_cons, show folderOf '/' ([] : List Text) = [] from rfl, List.append_nil,
    List.append_assoc]

theorem inner_dirs (pending : Pending) :
    (pending.inner.reverse.map fun p => p.inside.dirs + 1).sum = pending.inside.dirs := by
  rw [List.map_reverse, List.sum_reverse, Pending.inner, List.map_map, dirs_subdirs]
  rfl

section Walks
variable {config : Config} {tree : Tree Char Info} {propfind : Text → Except DavError (List ListEntity)}
variable (serves : Serves config tree propfind) (named : tree.Named '/')
include serves named

omit serves in
theorem inner_sound (pending : Pending) (sound : pending.Sound tree) : ∀ p ∈ pending.inner, p.Sound tree := by
  intro p member
  obtain ⟨dir, inside, rfl⟩ := List.mem_map.mp member
  have depth := depth_subdir pending.inside dir inside
  have shallow := sound.shallow
  have names := find_named '/' tree named pending.names pending.inside sound.found
  apply Pending.Sound.mk
  · change tree.find (pending.names ++ [dir.1]) = some dir.2
    rw [find_append, sound.found, Option.bind_some, find_subdir '/' pending.inside names dir inside]
  · change pending.depth + 1 + dir.2.depth < maxListDepth
    omega

/-- The loop adds the files of every directory it has left, up to the limit. -/
theorem listFrom_visits (straight : decodeBytes (utf8 (baseUrlPath config.trimmed)) = utf8 (baseUrlPath config.trimmed))
    (fuel : Nat) (stack : List Pending) (sound : ∀ p ∈ stack, p.Sound tree) (out : List ListEntry)
    (room : out.length ≤ maxListEntries) (enough : (stack.map fun p => p.inside.dirs + 1).sum ≤ fuel) :
    listFrom propfind (baseUrlPath config.trimmed) true fuel (stack.map (Pending.work config)) out =
      some (.ok ((out ++ stack.flatMap Pending.entries).take maxListEntries)) := by
  induction fuel generalizing stack out with
  | zero =>
    cases stack with
    | nil => simp [listFrom, List.take_of_length_le room]
    | cons p stack => simp at enough
  | succ fuel ih =>
    cases stack with
    | nil => simp [listFrom, List.take_of_length_le room]
    | cons p stack =>
      have here := sound p List.mem_cons_self
      obtain ⟨items, answer, lists⟩ := serves.found p.names p.inside here.found
      have solid := find_names '/' tree named p.names p.inside here.found
      have fold := foldl_lists straight (baseUrlPath_bare _ (bare_trimEnd config.baseUrl)) (p.work config)
        (davFolder_ends config.rootPath p.names) (davFolder_bare config.rootPath p.names solid) p.inside
        (find_named '/' tree named p.names p.inside here.found) items lists here.shallow (stack.map (Pending.work config)) out
      have queue : (p.inside.subdirs.map fun dir => (p.work config).child dir.1).reverse ++ stack.map (Pending.work config) =
          (p.inner.reverse ++ stack).map (Pending.work config) := by
        rw [inner_work, List.map_append, List.map_reverse]
      have sound' : ∀ q ∈ p.inner.reverse ++ stack, q.Sound tree := by
        intro q member
        cases List.mem_append.mp member with
        | inl below => exact inner_sound named p here q (List.mem_reverse.mp below)
        | inr later => exact sound q (List.mem_cons_of_mem p later)
      have enough' : ((p.inner.reverse ++ stack).map fun q => q.inside.dirs + 1).sum ≤ fuel := by
        rw [List.map_append, List.sum_append, inner_dirs]
        rw [List.map_cons, List.sum_cons] at enough
        omega
      rw [List.map_cons, listFrom, show propfind (p.work config).davDir = .ok items from answer]
      simp only [fold, queue]
      change (if maxListEntries < (out ++ (p.inside.direct (folderOf '/' p.names)).map entryOf).length then _ else _) = _
      rw [List.flatMap_cons, entries_inner p, List.append_assoc, ← List.append_assoc out, ← List.flatMap_append]
      split_ifs with full
      · rw [List.take_append_of_le_length (Nat.le_of_lt full)]
        rfl
      · exact ih (p.inner.reverse ++ stack) sound' _ (Nat.le_of_not_lt full) enough'

/-- What a listing of a directory of the tree finds, whatever the fuel beyond its need. -/
theorem list_found (straight : decodeBytes (utf8 (baseUrlPath config.trimmed)) = utf8 (baseUrlPath config.trimmed))
    (shallow : tree.depth < maxListDepth) (folder : Text) (closed : folder = [] ∨ folder.getLast? = some '/')
    (allowed : validateFolder folder = .ok ()) (sub : Tree Char Info) (found : tree.find (segments '/' folder) = some sub)
    (fuel : Nat) (enough : sub.dirs + 1 ≤ fuel) :
    list propfind config fuel folder true =
      some (.ok (((sub.visited '/' folder).map entryOf).take maxListEntries)) := by
  have path := folderOf_segments '/' folder closed
  have depth := find_depth tree (segments '/' folder) sub found
  have visits := listFrom_visits serves named straight fuel [⟨segments '/' folder, sub, 0⟩]
    (by simpa using Pending.Sound.mk found (by change 0 + sub.depth < _; omega)) [] (Nat.zero_le _) (by simpa using enough)
  rw [list, allowed]
  simp only [List.map_cons, List.map_nil, Pending.work, List.flatMap_singleton, List.nil_append, Pending.entries, path] at visits
  exact visits

omit named in
/-- A listing of a folder the tree has not, or under a base with an escape in it, finds
nothing. -/
theorem list_blind (folder : Text) (closed : folder = [] ∨ folder.getLast? = some '/')
    (allowed : validateFolder folder = .ok ())
    (blind : tree.find (segments '/' folder) = none ∨
      decodeBytes (utf8 (baseUrlPath config.trimmed)) ≠ utf8 (baseUrlPath config.trimmed)) :
    ∃ walked, (∀ fuel, list propfind config (fuel + 1) folder true = some walked) ∧
      (walked = .ok [] ∨ tree.find (segments '/' folder) = none ∧ ∃ e, walked = .error e) := by
  have path := folderOf_segments '/' folder closed
  have bare := baseUrlPath_bare _ (bare_trimEnd config.baseUrl)
  have rooted := rooted_davFolder config.rootPath folder
  have full : davFolder config.rootPath folder ≠ [] := by
    rw [davFolder_eq]
    simp
  cases answer : propfind (davFolder config.rootPath folder) with
  | error e =>
    refine ⟨.error (mapDavError e), fun fuel => ?_, .inr ⟨?_, _, rfl⟩⟩
    · rw [list, allowed]
      simp only [listFrom, answer]
    · cases here : tree.find (segments '/' folder) with
      | none => rfl
      | some sub =>
        obtain ⟨items, answer', -⟩ := serves.found (segments '/' folder) sub here
        rw [path, answer] at answer'
        cases answer'
  | ok items =>
    have unread : ∀ item ∈ items,
        (stripBase (baseUrlPath config.trimmed ++ davFolder config.rootPath folder) (hrefToPath item.href)).getD [] = [] := by
      cases here : tree.find (segments '/' folder) with
      | none =>
        intro item member
        have points := serves.missing (segments '/' folder) items (segments_free '/' folder) here
        rw [path] at points
        have itself := points answer item member
        by_cases straight : decodeBytes (utf8 (baseUrlPath config.trimmed)) = utf8 (baseUrlPath config.trimmed)
        · have ends := davFolder_ends config.rootPath (segments '/' folder)
          rw [path] at ends
          rw [stripBase_itself straight _ item.href ends itself]
          rfl
        · rw [stripBase_escaped straight bare _ _ item.href rooted.dropLast itself]
          rfl
      | some sub =>
        have escaped := blind.resolve_left (by rw [here]; exact Option.some_ne_none _)
        obtain ⟨items', answer', lists⟩ := serves.found (segments '/' folder) sub here
        rw [path, answer] at answer'
        cases answer'
        rw [path] at lists
        exact lists_unread escaped bare _ rooted full sub items lists
    refine ⟨.ok [], fun fuel => ?_, .inl rfl⟩
    rw [list, allowed]
    simp only [listFrom, answer, foldl_unread true _ _ _ items unread]
    rfl

end Walks

end OriginCache.Backend.OpenList
