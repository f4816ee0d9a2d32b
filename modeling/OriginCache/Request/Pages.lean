import Mathlib.Data.List.Destutter
import OriginCache.Request.Business

/-! What a listing page shows of an upstream: a page is determined by the files it has a
place for, and tells each of them apart from nothing. -/

namespace OriginCache.Request.Pages
open Foundation.Splits Foundation.Percent Foundation.Tables Canonical Sigv4 ContentAuth Listing Business
open Cache.SegName (Text)
open Cache.Key

/-! What a page shows of a key. -/

/-- The name a listing shows a key under: itself, or the directory that hides it. -/
def shownName (params : ListParams) (key : Text) : Text × Bool :=
  if params.recursive then (key, false)
  else
    match dirOf params.folder key with
    | some dir => (dir, true)
    | none => (key, false)

def passes (resume : Resume) (shown : Text × Bool) : Bool :=
  match resume with
  | .start => true
  | .afterContent key => shown.2 || decide (key < shown.1)
  | .afterPrefix name => shown.2 && decide (name < shown.1)

/-- Whether a page resumed at `resume` has a place for a key. -/
def visible (params : ListParams) (resume : Resume) (key : Text) : Bool :=
  params.folder.isPrefixOf key && params.keyPrefix.isPrefixOf (shownName params key).1 &&
    params.starts (shownName params key).1 && passes resume (shownName params key)

/-- Where the page starts; nothing when its token cannot be opened. -/
def resumePoint (wire : Wire) (params : ListParams) : Option Resume :=
  match resumeFrom wire params with
  | none => some .start
  | some (.ok resume) => some resume
  | some (.error _) => none

def shows (wire : Wire) (params : ListParams) (key : Text) : Bool :=
  params.cap ≠ 0 && (resumePoint wire params).any fun resume => visible params resume key

/-- The page of an upstream, before it is cut. -/
def itemsOf (up : Upstream) (params : ListParams) (resume : Resume) : PageItems :=
  resumed (selectItems (up.walked params.folder params.recursive) params) resume

theorem mem_below (up : Upstream) (folder : Text) (f : File) :
    f ∈ up.below folder ↔ f ∈ up.files ∧ folder.isPrefixOf f.key = true :=
  List.mem_filter

/-- The files of a walk, in upstream order. -/
def directFiles (up : Upstream) (params : ListParams) : List File :=
  (up.below params.folder).filter fun f => (shownName params f.key).2 = false

theorem shownName_whole (params : ListParams) (key : Text) (whole : params.recursive = true) :
    shownName params key = (key, false) := by
  rw [shownName, if_pos whole]

theorem shownName_none (params : ListParams) (key : Text) (direct : dirOf params.folder key = none) :
    shownName params key = (key, false) := by
  rw [shownName, direct]
  split_ifs <;> rfl

theorem shownName_some (params : ListParams) (key dir : Text) (shallow : params.recursive = false)
    (hidden : dirOf params.folder key = some dir) : shownName params key = (dir, true) := by
  rw [shownName, shallow, hidden]
  rfl

/-- A key is shown as itself, or under the directory that holds it. -/
theorem shownName_cases (params : ListParams) (key : Text) :
    shownName params key = (key, false) ∨ ∃ dir, params.recursive = false ∧
      dirOf params.folder key = some dir ∧ shownName params key = (dir, true) := by
  cases deep : params.recursive with
  | true => exact .inl (shownName_whole params key deep)
  | false =>
    cases hidden : dirOf params.folder key with
    | none => exact .inl (shownName_none params key hidden)
    | some dir => exact .inr ⟨dir, rfl, rfl, shownName_some params key dir deep hidden⟩

theorem shownName_file (params : ListParams) (key : Text) (direct : (shownName params key).2 = false) :
    shownName params key = (key, false) := by
  rcases shownName_cases params key with file | ⟨dir, -, -, shown⟩
  · exact file
  · rw [shown] at direct
    cases direct

theorem filter_files (up : Upstream) (params : ListParams) :
    (up.walked params.folder params.recursive).filter (fun e => !e.isDir) =
      (directFiles up params).map File.entry := by
  have files : ∀ fs : List File, (fs.map File.entry).filter (fun e => !e.isDir) = fs.map File.entry := by
    intro fs
    apply List.filter_eq_self.mpr
    intro e member
    obtain ⟨f, -, rfl⟩ := List.mem_map.mp member
    rfl
  have dirs : ∀ names : List Text, (names.map dirEntry).filter (fun e => !e.isDir) = [] := by
    intro names
    apply List.filter_eq_nil_iff.mpr
    intro e member
    obtain ⟨name, -, rfl⟩ := List.mem_map.mp member
    exact Bool.false_ne_true
  unfold Upstream.walked directFiles
  cases deep : params.recursive with
  | true =>
    rw [if_pos rfl, files]
    congr 1
    apply (List.filter_eq_self.mpr _).symm
    intro f _
    rw [shownName_whole params f.key deep]
    rfl
  | false =>
    rw [if_neg Bool.false_ne_true, List.filter_append, files, dirs, List.append_nil]
    congr 1
    apply List.filter_congr
    intro f _
    cases hidden : dirOf params.folder f.key with
    | none => rw [shownName_none params f.key hidden]; rfl
    | some dir => rw [shownName_some params f.key dir deep hidden]; rfl

theorem filter_dirs (up : Upstream) (params : ListParams) :
    ((up.walked params.folder params.recursive).filter fun e => e.isDir).map ListEntry.key =
      if params.recursive then [] else
        ((up.below params.folder).filterMap fun f => dirOf params.folder f.key).dedup := by
  have files : ∀ fs : List File, (fs.map File.entry).filter (fun e => e.isDir) = [] := by
    intro fs
    apply List.filter_eq_nil_iff.mpr
    intro e member
    obtain ⟨f, -, rfl⟩ := List.mem_map.mp member
    exact Bool.false_ne_true
  have dirs : ∀ names : List Text, (names.map dirEntry).filter (fun e => e.isDir) = names.map dirEntry := by
    intro names
    apply List.filter_eq_self.mpr
    intro e member
    obtain ⟨name, -, rfl⟩ := List.mem_map.mp member
    rfl
  have named : ListEntry.key ∘ dirEntry = id := rfl
  unfold Upstream.walked
  cases params.recursive with
  | true => rw [if_pos rfl, if_pos rfl, files, List.map_nil]
  | false =>
    rw [if_neg Bool.false_ne_true, if_neg Bool.false_ne_true, List.filter_append, files, dirs,
      List.nil_append, List.map_map, named, List.map_id]

/-! The page as a set. -/

/-- A file of the upstream that the page shows as itself. -/
def ShownFile (up : Upstream) (params : ListParams) (resume : Resume) (f : File) : Prop :=
  f ∈ up.files ∧ visible params resume f.key = true ∧ (shownName params f.key).2 = false

/-- A directory that the page shows for some file of the upstream. -/
def ShownDir (up : Upstream) (params : ListParams) (resume : Resume) (dir : Text) : Prop :=
  ∃ f ∈ up.files, visible params resume f.key = true ∧ shownName params f.key = (dir, true)

theorem passes_file (resume : Resume) (key : Text) (page : PageItems) (e : ListEntry) (named : e.key = key) :
    e ∈ (resumed page resume).contents ↔ e ∈ page.contents ∧ passes resume (key, false) = true := by
  subst named
  cases resume with
  | start => simp [resumed, passes]
  | afterContent after => simp [resumed, passes]
  | afterPrefix after => simp [resumed, passes]

theorem passes_dir (resume : Resume) (page : PageItems) (dir : Text) :
    dir ∈ (resumed page resume).commonPrefixes ↔
      dir ∈ page.commonPrefixes ∧ passes resume (dir, true) = true := by
  cases resume with
  | start => simp [resumed, passes]
  | afterContent after => simp [resumed, passes]
  | afterPrefix after => simp [resumed, passes]

theorem mem_contents (up : Upstream) (params : ListParams) (resume : Resume) (e : ListEntry) :
    e ∈ (itemsOf up params resume).contents ↔ ∃ f, ShownFile up params resume f ∧ f.entry = e := by
  have selected : e ∈ (selectItems (up.walked params.folder params.recursive) params).contents ↔
      (∃ f ∈ directFiles up params, f.entry = e) ∧ params.keyPrefix.isPrefixOf e.key = true ∧
        params.starts e.key = true := by
    simp only [selectItems, List.mem_filter, (List.perm_insertionSort _ _).mem_iff]
    have member : e ∈ (up.walked params.folder params.recursive).filter (fun e => !e.isDir) ↔
        e ∈ up.walked params.folder params.recursive ∧ (!e.isDir) = true := List.mem_filter
    rw [filter_files, List.mem_map] at member
    rw [member]
    tauto
  rw [itemsOf, passes_file resume e.key _ e rfl, selected]
  constructor
  · rintro ⟨⟨⟨f, member, rfl⟩, begins, starts⟩, passing⟩
    obtain ⟨inside, direct⟩ := List.mem_filter.mp member
    have shown := shownName_file params f.key (of_decide_eq_true direct)
    have facts := (mem_below up params.folder f).mp inside
    refine ⟨f, ⟨facts.1, ?_, of_decide_eq_true direct⟩, rfl⟩
    have starts' : params.starts f.key = true := starts
    have begins' : params.keyPrefix.isPrefixOf f.key = true := begins
    have passing' : passes resume (f.key, false) = true := passing
    simp only [visible, shown, facts.2, begins', starts', passing', Bool.and_self]
  · rintro ⟨f, ⟨inside, seen, direct⟩, rfl⟩
    have shown := shownName_file params f.key direct
    simp only [visible, shown, Bool.and_eq_true] at seen
    obtain ⟨⟨⟨folder, begins⟩, starts⟩, passing⟩ := seen
    have member : f ∈ directFiles up params :=
      List.mem_filter.mpr ⟨(mem_below up params.folder f).mpr ⟨inside, folder⟩, decide_eq_true direct⟩
    exact ⟨⟨⟨f, member, rfl⟩, begins, starts⟩, passing⟩

/-- The directories of a shallow walk that begin with the prefix. -/
def dirNames (up : Upstream) (params : ListParams) : List Text :=
  ((up.below params.folder).filterMap fun f => dirOf params.folder f.key).dedup.filter
    params.keyPrefix.isPrefixOf

theorem selected_dirs (up : Upstream) (params : ListParams) :
    (selectItems (up.walked params.folder params.recursive) params).commonPrefixes =
      if params.recursive then []
      else ((dirNames up params).insertionSort NotAfter).filter fun p => params.starts p := by
  have names : (((up.walked params.folder params.recursive).filter
      fun e => params.keyPrefix.isPrefixOf e.key).filter fun e => e.isDir).map ListEntry.key =
        (((up.walked params.folder params.recursive).filter fun e => e.isDir).map ListEntry.key).filter
          params.keyPrefix.isPrefixOf := by
    rw [List.filter_comm, List.filter_map]
    rfl
  have flag : params.delimiter.isSome = !params.recursive := by
    rw [ListParams.recursive, Option.not_isNone]
  simp only [selectItems, names, filter_dirs, flag]
  cases params.recursive with
  | true => rfl
  | false =>
    have once : ((dirNames up params).insertionSort NotAfter).Nodup :=
      (List.perm_insertionSort _ _).symm.nodup ((List.nodup_dedup _).filter _)
    change List.filter _ (((dirNames up params).insertionSort NotAfter).destutter (· ≠ ·)) = _
    rw [List.destutter_of_isChain _ _ once.isChain]
    rfl

theorem mem_commonPrefixes (up : Upstream) (params : ListParams) (resume : Resume) (dir : Text) :
    dir ∈ (itemsOf up params resume).commonPrefixes ↔ ShownDir up params resume dir := by
  have listed : dir ∈ (selectItems (up.walked params.folder params.recursive) params).commonPrefixes ↔
      params.recursive = false ∧ (∃ f ∈ up.below params.folder, dirOf params.folder f.key = some dir) ∧
        params.keyPrefix.isPrefixOf dir = true ∧ params.starts dir = true := by
    rw [selected_dirs]
    cases params.recursive with
    | true => simp
    | false =>
      rw [if_neg Bool.false_ne_true, List.mem_filter, (List.perm_insertionSort _ _).mem_iff, dirNames,
        List.mem_filter, List.mem_dedup, List.mem_filterMap]
      tauto
  rw [itemsOf, passes_dir, listed]
  constructor
  · rintro ⟨⟨shallow, ⟨f, inside, hidden⟩, begins, starts⟩, passing⟩
    have shown := shownName_some params f.key dir shallow hidden
    have facts := (mem_below up params.folder f).mp inside
    refine ⟨f, facts.1, ?_, shown⟩
    simp only [visible, shown, facts.2, begins, starts, passing, Bool.and_self]
  · rintro ⟨f, inside, seen, shown⟩
    simp only [visible, shown, Bool.and_eq_true] at seen
    obtain ⟨⟨⟨folder, begins⟩, starts⟩, passing⟩ := seen
    rcases shownName_cases params f.key with file | ⟨other, shallow, hidden, named⟩
    · rw [file] at shown
      cases shown
    · rw [named] at shown
      cases shown
      exact ⟨⟨shallow, ⟨f, (mem_below up params.folder f).mpr ⟨inside, folder⟩, hidden⟩, begins, starts⟩, passing⟩

/-! The page as a list: both blocks are sorted and hold nothing twice. -/

def KeyOrder (a b : ListEntry) : Prop := NotAfter a.key b.key

instance : DecidableRel KeyOrder := fun _ _ => inferInstanceAs (Decidable (¬_))
instance : Std.Total KeyOrder := ⟨fun a b => notAfter_total a.key b.key⟩
instance : IsTrans ListEntry KeyOrder := ⟨fun a b c => notAfter_trans a.key b.key c.key⟩

theorem resumed_sublist (page : PageItems) (resume : Resume) :
    (resumed page resume).contents.Sublist page.contents ∧
      (resumed page resume).commonPrefixes.Sublist page.commonPrefixes := by
  cases resume with
  | start => exact ⟨List.Sublist.refl _, List.Sublist.refl _⟩
  | afterContent key => exact ⟨List.filter_sublist, List.Sublist.refl _⟩
  | afterPrefix name => exact ⟨List.nil_sublist _, List.filter_sublist⟩

theorem file_of_key (up : Upstream) (f g : File) (first : f ∈ up.files) (second : g ∈ up.files)
    (same : f.key = g.key) : f = g :=
  List.inj_on_of_nodup_map up.distinct first second same

theorem sorted_contents (up : Upstream) (params : ListParams) (resume : Resume) :
    (itemsOf up params resume).contents.Pairwise KeyOrder ∧ (itemsOf up params resume).contents.Nodup := by
  have sublist := (resumed_sublist (selectItems (up.walked params.folder params.recursive) params) resume).1
  have once : (((up.walked params.folder params.recursive).filter
      fun e => params.keyPrefix.isPrefixOf e.key).filter fun e => !e.isDir).Nodup := by
    rw [List.filter_comm, filter_files]
    apply List.Nodup.filter
    apply List.Nodup.of_map ListEntry.key
    rw [List.map_map]
    exact up.distinct.sublist ((List.filter_sublist.trans List.filter_sublist).map File.key)
  constructor
  · apply List.Pairwise.sublist sublist
    exact (List.pairwise_insertionSort KeyOrder _).filter _
  · apply List.Nodup.sublist sublist
    exact ((List.perm_insertionSort KeyOrder _).symm.nodup once).filter _

theorem sorted_commonPrefixes (up : Upstream) (params : ListParams) (resume : Resume) :
    (itemsOf up params resume).commonPrefixes.Pairwise NotAfter ∧
      (itemsOf up params resume).commonPrefixes.Nodup := by
  have sublist := (resumed_sublist (selectItems (up.walked params.folder params.recursive) params) resume).2
  have whole : (selectItems (up.walked params.folder params.recursive) params).commonPrefixes.Pairwise NotAfter ∧
      (selectItems (up.walked params.folder params.recursive) params).commonPrefixes.Nodup := by
    rw [selected_dirs]
    cases params.recursive with
    | true => exact ⟨List.Pairwise.nil, List.Pairwise.nil⟩
    | false =>
      have once : (dirNames up params).Nodup := (List.nodup_dedup _).filter _
      exact ⟨(List.pairwise_insertionSort NotAfter _).filter _,
        ((List.perm_insertionSort NotAfter _).symm.nodup once).filter _⟩
  exact ⟨List.Pairwise.sublist sublist whole.1, List.Nodup.sublist sublist whole.2⟩

/-- Upstreams that show the same files and directories have the same page. -/
theorem itemsOf_congr (up₁ up₂ : Upstream) (params : ListParams) (resume : Resume)
    (files : ∀ f, visible params resume f.key = true → (f ∈ up₁.files ↔ f ∈ up₂.files)) :
    itemsOf up₁ params resume = itemsOf up₂ params resume := by
  have sameFiles : ∀ f, ShownFile up₁ params resume f ↔ ShownFile up₂ params resume f := by
    intro f
    constructor
    · rintro ⟨inside, seen, direct⟩
      exact ⟨(files f seen).mp inside, seen, direct⟩
    · rintro ⟨inside, seen, direct⟩
      exact ⟨(files f seen).mpr inside, seen, direct⟩
  have sameDirs : ∀ dir, ShownDir up₁ params resume dir ↔ ShownDir up₂ params resume dir := by
    intro dir
    constructor
    · rintro ⟨f, inside, seen, shown⟩
      exact ⟨f, (files f seen).mp inside, seen, shown⟩
    · rintro ⟨f, inside, seen, shown⟩
      exact ⟨f, (files f seen).mpr inside, seen, shown⟩
  have contents : (itemsOf up₁ params resume).contents = (itemsOf up₂ params resume).contents := by
    have first := sorted_contents up₁ params resume
    have second := sorted_contents up₂ params resume
    have members : ∀ e, e ∈ (itemsOf up₁ params resume).contents ↔ e ∈ (itemsOf up₂ params resume).contents := by
      intro e
      simp only [mem_contents, sameFiles]
    apply List.Perm.eq_of_pairwise _ first.1 second.1
      ((List.perm_ext_iff_of_nodup first.2 second.2).mpr members)
    intro a b inFirst inSecond before after
    obtain ⟨f, ⟨insideF, -, -⟩, rfl⟩ := (mem_contents up₂ params resume a).mp ((members a).mp inFirst)
    obtain ⟨g, ⟨insideG, -, -⟩, rfl⟩ := (mem_contents up₂ params resume b).mp inSecond
    rw [file_of_key up₂ f g insideF insideG (notAfter_antisymm _ _ before after)]
  have dirs : (itemsOf up₁ params resume).commonPrefixes = (itemsOf up₂ params resume).commonPrefixes := by
    have first := sorted_commonPrefixes up₁ params resume
    have second := sorted_commonPrefixes up₂ params resume
    have members : ∀ dir, dir ∈ (itemsOf up₁ params resume).commonPrefixes ↔
        dir ∈ (itemsOf up₂ params resume).commonPrefixes := by
      intro dir
      simp only [mem_commonPrefixes, sameDirs]
    exact List.Perm.eq_of_pairwise (fun a b _ _ => notAfter_antisymm a b) first.1 second.1
      ((List.perm_ext_iff_of_nodup first.2 second.2).mpr members)
  calc itemsOf up₁ params resume
      = ⟨(itemsOf up₁ params resume).contents, (itemsOf up₁ params resume).commonPrefixes⟩ := rfl
    _ = ⟨(itemsOf up₂ params resume).contents, (itemsOf up₂ params resume).commonPrefixes⟩ := by
      rw [contents, dirs]
    _ = itemsOf up₂ params resume := rfl

/-! The answer to a listing. -/

section Pages
variable (wire : Wire) (bucket : Text) (params : ListParams) (pathKey : Text) (ids : RequestIds)

theorem listPage_walked (up : Upstream) :
    listPage wire bucket params pathKey ids (.ok (up.walked params.folder params.recursive)) =
      match resumePoint wire params with
      | none => invalidArgument .continuationToken pathKey ids
      | some resume => renderPage wire bucket params (itemsOf up params resume) .start ids := by
  unfold listPage resumePoint
  cases resumeFrom wire params with
  | none => rfl
  | some point =>
    cases point with
    | error bad => rfl
    | ok resume => rfl

/-- Upstreams that hold the same files among those the page shows are listed alike. -/
theorem listPage_congr (up₁ up₂ : Upstream)
    (files : ∀ f : File, shows wire params f.key = true → (f ∈ up₁.files ↔ f ∈ up₂.files)) :
    listPage wire bucket params pathKey ids (.ok (up₁.walked params.folder params.recursive)) =
      listPage wire bucket params pathKey ids (.ok (up₂.walked params.folder params.recursive)) := by
  rw [listPage_walked, listPage_walked]
  cases point : resumePoint wire params with
  | none => rfl
  | some resume =>
    by_cases nothing : params.cap = 0
    · simp only [renderPage, if_pos nothing]
    · have same := itemsOf_congr up₁ up₂ params resume fun f seen =>
        files f (by simp [shows, nothing, point, seen])
      simp only [same]

/-! A page with one item differs from the empty page. -/

theorem element_length (name : String) (inner : Text) :
    (element name inner).length =
      ("<" ++ name ++ ">").toList.length + inner.length + ("</" ++ name ++ ">").toList.length := by
  rw [element, List.length_append, List.length_append]

theorem renderFields_length (items : PageItems)
    (one : items.contents.length + items.commonPrefixes.length = 1) :
    (renderFields params items false none).length = (renderFields params ⟨[], []⟩ false none).length := by
  have digits : (numeral 1).length = (numeral 0).length := by decide
  unfold renderFields
  cases params.isV2 with
  | true => simp only [if_pos, one, List.length_append, element_length, digits, List.length_nil, Nat.add_zero]
  | false => simp

theorem element_pos (name : String) (inner : Text) : 0 < (element name inner).length := by
  rw [element_length]
  have tag : 0 < ("<" ++ name ++ ">").toList.length := by simp [String.toList_append]
  omega

theorem renderItems_pos (items : PageItems)
    (one : items.contents.length + items.commonPrefixes.length = 1) :
    0 < (items.contents.flatMap (renderContent wire params)).length +
      (items.commonPrefixes.flatMap (renderPrefix params)).length := by
  obtain ⟨contents, commonPrefixes⟩ := items
  cases contents with
  | cons c rest =>
    have positive : 0 < (renderContent wire params c).length := element_pos _ _
    simp only [List.flatMap_cons, List.length_append]
    omega
  | nil =>
    cases commonPrefixes with
    | nil => cases one
    | cons p rest =>
      have positive : 0 < (renderPrefix params p).length := element_pos _ _
      simp only [List.flatMap_cons, List.length_append]
      omega

theorem renderXml_length (items : PageItems)
    (one : items.contents.length + items.commonPrefixes.length = 1) :
    (renderXml wire bucket params ⟨[], []⟩ false none).length <
      (renderXml wire bucket params items false none).length := by
  have fields := renderFields_length params items one
  have grows := renderItems_pos wire params items one
  simp only [renderXml, List.length_append, fields, List.flatMap_nil, List.length_nil]
  omega

theorem cut_one (cap : Nat) (items : PageItems) (room : cap ≠ 0)
    (one : items.contents.length + items.commonPrefixes.length ≤ 1) : cut cap items = (items, false) := by
  have contents : items.contents.take cap = items.contents := List.take_of_length_le (by omega)
  have dirs : items.commonPrefixes.take (cap - items.contents.length) = items.commonPrefixes :=
    List.take_of_length_le (by omega)
  simp only [cut, contents, dirs, Nat.lt_irrefl, decide_false]

theorem renderPage_ne (items : PageItems) (room : params.cap ≠ 0)
    (one : items.contents.length + items.commonPrefixes.length = 1) :
    renderPage wire bucket params ⟨[], []⟩ .start ids ≠ renderPage wire bucket params items .start ids := by
  intro same
  have bodies := congrArg Response.body same
  simp only [renderPage, if_neg room, resumed, cut_one params.cap items room (Nat.le_of_eq one),
    cut_one params.cap ⟨[], []⟩ room (Nat.zero_le 1)] at bodies
  have lengths := congrArg List.length (utf8_injective bodies)
  exact absurd lengths (Nat.ne_of_lt (renderXml_length wire bucket params items one))

end Pages

/-! Single files. -/

def noFiles : Upstream := ⟨[], List.nodup_nil⟩

def oneFile (f : File) : Upstream := ⟨[f], List.nodup_singleton _⟩

theorem itemsOf_noFiles (params : ListParams) (resume : Resume) : itemsOf noFiles params resume = ⟨[], []⟩ := by
  have contents : (itemsOf noFiles params resume).contents = [] := by
    apply List.eq_nil_iff_forall_not_mem.mpr
    intro e member
    obtain ⟨f, ⟨inside, -, -⟩, -⟩ := (mem_contents noFiles params resume e).mp member
    exact List.not_mem_nil inside
  have dirs : (itemsOf noFiles params resume).commonPrefixes = [] := by
    apply List.eq_nil_iff_forall_not_mem.mpr
    intro dir member
    obtain ⟨f, inside, -⟩ := (mem_commonPrefixes noFiles params resume dir).mp member
    exact List.not_mem_nil inside
  calc itemsOf noFiles params resume
      = ⟨(itemsOf noFiles params resume).contents, (itemsOf noFiles params resume).commonPrefixes⟩ := rfl
    _ = ⟨[], []⟩ := by rw [contents, dirs]

/-- A visible file is one item of the page, as itself or as its directory. -/
theorem itemsOf_oneFile (params : ListParams) (resume : Resume) (f : File)
    (seen : visible params resume f.key = true) :
    (itemsOf (oneFile f) params resume).contents.length +
      (itemsOf (oneFile f) params resume).commonPrefixes.length = 1 := by
  have only : ∀ g, g ∈ (oneFile f).files ↔ g = f := fun g => List.mem_singleton
  have first := sorted_contents (oneFile f) params resume
  have second := sorted_commonPrefixes (oneFile f) params resume
  rcases shownName_cases params f.key with file | ⟨dir, -, -, shown⟩
  · have contents : (itemsOf (oneFile f) params resume).contents = [f.entry] := by
      apply List.perm_singleton.mp
      apply (List.perm_ext_iff_of_nodup first.2 (List.nodup_singleton _)).mpr
      intro e
      rw [mem_contents, List.mem_singleton]
      constructor
      · rintro ⟨g, ⟨inside, -, -⟩, rfl⟩
        rw [(only g).mp inside]
      · rintro rfl
        exact ⟨f, ⟨(only f).mpr rfl, seen, by rw [file]⟩, rfl⟩
    have dirs : (itemsOf (oneFile f) params resume).commonPrefixes = [] := by
      apply List.eq_nil_iff_forall_not_mem.mpr
      intro dir member
      obtain ⟨g, inside, -, shown⟩ := (mem_commonPrefixes (oneFile f) params resume dir).mp member
      rw [(only g).mp inside, file] at shown
      cases shown
    rw [contents, dirs]
    rfl
  · have contents : (itemsOf (oneFile f) params resume).contents = [] := by
      apply List.eq_nil_iff_forall_not_mem.mpr
      intro e member
      obtain ⟨g, ⟨inside, -, direct⟩, -⟩ := (mem_contents (oneFile f) params resume e).mp member
      rw [(only g).mp inside, shown] at direct
      cases direct
    have dirs : (itemsOf (oneFile f) params resume).commonPrefixes = [dir] := by
      apply List.perm_singleton.mp
      apply (List.perm_ext_iff_of_nodup second.2 (List.nodup_singleton _)).mpr
      intro other
      rw [mem_commonPrefixes, List.mem_singleton]
      constructor
      · rintro ⟨g, inside, -, named⟩
        rw [(only g).mp inside, shown] at named
        exact (congrArg Prod.fst named).symm
      · rintro rfl
        exact ⟨f, (only f).mpr rfl, seen, shown⟩
    rw [contents, dirs]
    rfl

/-- What a page shows, it tells apart from nothing. -/
theorem listPage_ne (wire : Wire) (bucket : Text) (params : ListParams) (pathKey : Text) (ids : RequestIds)
    (f : File) (shown : shows wire params f.key = true) :
    listPage wire bucket params pathKey ids (.ok (noFiles.walked params.folder params.recursive)) ≠
      listPage wire bucket params pathKey ids (.ok ((oneFile f).walked params.folder params.recursive)) := by
  rw [listPage_walked, listPage_walked]
  simp only [shows, Bool.and_eq_true, decide_eq_true_eq] at shown
  obtain ⟨room, placed⟩ := shown
  cases point : resumePoint wire params with
  | none =>
    rw [point] at placed
    cases placed
  | some resume =>
    rw [point] at placed
    simp only [itemsOf_noFiles]
    exact renderPage_ne wire bucket params ids _ room (itemsOf_oneFile params resume f placed)

end OriginCache.Request.Pages
