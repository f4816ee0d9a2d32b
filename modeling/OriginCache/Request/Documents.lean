import OriginCache.Foundation.Elements
import OriginCache.Request.Encodings
import OriginCache.Request.Walks

/-! Listing documents as a client reads them. Reading the document of a page gives the
page back, so a client that sees documents only goes through the pages of a listing. -/

namespace OriginCache.Request.Documents
open Foundation.Markup Foundation.Percent Foundation.Splits Foundation.Elements
open Canonical Listing Encodings Walks
open Cache.SegName (Text parseU64 parseU64_numeral)

/-! The rows of a document. -/

def field (name : String) (text : Text) : Row := .leaf name.toList text .done

def given (name : String) (value : Option Text) : Row := (value.map (field name)).getD .done

def group (name : String) (inner : Row) : Row := .branch name.toList inner .done

section Rows
variable (wire : Wire) (bucket : Text) (params : ListParams)

def owner : Row :=
  if params.fetchOwner then
    group "Owner" (field "ID" "origin-cache".toList ++ field "DisplayName" "origin-cache".toList)
  else .done

def entryRow (c : ListEntry) : Row :=
  field "Key" (encMaybe params c.key) ++ given "LastModified" (c.lastModified.bind wire.iso8601) ++
    given "ETag" (c.etag.map fun etag => xmlEscape (quoteEtag etag)) ++ field "Size" (numeral c.size) ++ owner params ++
    field "StorageClass" "STANDARD".toList

def contentRow (c : ListEntry) : Row := group "Contents" (entryRow wire params c)

def prefixRow (p : Text) : Row := group "CommonPrefixes" (field "Prefix" (encMaybe params p))

def maxKeysRow : Row := field "MaxKeys" (xmlEscape (params.maxKeysRaw.getD ['1', '0', '0', '0']))

def optionRows : Row :=
  given "Delimiter" (params.delimiter.map (encMaybe params)) ++
    given "EncodingType" (if params.encodingUrl then some ['u', 'r', 'l'] else none)

def fieldRows (page : Page) : Row :=
  if params.isV2 then
    given "StartAfter" (params.startAfter.map (encMaybe params)) ++
      given "ContinuationToken" (params.continuationToken.map xmlEscape) ++
      given "NextContinuationToken" (page.token.map xmlEscape) ++
      field "KeyCount" (numeral (page.items.contents.length + page.items.commonPrefixes.length)) ++
      maxKeysRow params ++ optionRows params
  else
    maxKeysRow params ++ given "Marker" (params.marker.map (encMaybe params)) ++
      given "NextMarker" ((page.nextMarker params).map (encMaybe params)) ++ optionRows params

def headRows (page : Page) : Row :=
  field "Name" (xmlEscape bucket) ++ field "Prefix" (encMaybe params params.keyPrefix) ++ fieldRows params page ++
    field "IsTruncated" (if page.truncated then "true".toList else "false".toList)

def itemRows (items : PageItems) : Row :=
  concat (items.contents.map (contentRow wire params)) ++ concat (items.commonPrefixes.map (prefixRow params))

def rootTag : Text := "ListBucketResult xmlns=\"http://s3.amazonaws.com/doc/2006-03-01/\"".toList

def pageRows (page : Page) : Row := headRows bucket params page ++ itemRows wire params page.items

def documentRow (page : Page) : Row := .branch rootTag (pageRows wire bucket params page) .done

end Rows

/-! What a client reads. -/

structure ShownEntry where
  key : Text
  lastModified : Option Text
  etag : Option Text
  size : Nat
deriving DecidableEq, Repr

structure Shown where
  bucket : Text
  keyPrefix : Text
  startAfter : Option Text
  continuationToken : Option Text
  nextToken : Option Text
  keyCount : Option Nat
  maxKeys : Text
  marker : Option Text
  nextMarker : Option Text
  delimiter : Option Text
  truncated : Bool
  contents : List ShownEntry
  commonPrefixes : List Text
deriving DecidableEq, Repr

def first (row : Row) (name : String) : Option Text := (row.texts name.toList).head?

/-- Keys are read as the document says they are encoded. -/
def readKey (url : Bool) (text : Text) : Text := if url then formDecodePart text else text

def readEntry (url : Bool) (row : Row) : Option ShownEntry := do
  let key ← first row "Key"
  let size ← (first row "Size").bind parseU64
  some ⟨readKey url key, first row "LastModified", first row "ETag", size⟩

def readPrefix (url : Bool) (row : Row) : Option Text := (first row "Prefix").map (readKey url)

def readRows (row : Row) : Option Shown := do
  let url := decide (first row "EncodingType" = some ['u', 'r', 'l'])
  let bucket ← first row "Name"
  let keyPrefix ← first row "Prefix"
  let maxKeys ← first row "MaxKeys"
  let truncated ← first row "IsTruncated"
  let contents ← (row.rows "Contents".toList).mapM (readEntry url)
  let commonPrefixes ← (row.rows "CommonPrefixes".toList).mapM (readPrefix url)
  some {
    bucket := bucket
    keyPrefix := readKey url keyPrefix
    startAfter := (first row "StartAfter").map (readKey url)
    continuationToken := first row "ContinuationToken"
    nextToken := first row "NextContinuationToken"
    keyCount := (first row "KeyCount").bind parseU64
    maxKeys := maxKeys
    marker := (first row "Marker").map (readKey url)
    nextMarker := (first row "NextMarker").map (readKey url)
    delimiter := (first row "Delimiter").map (readKey url)
    truncated := truncated = "true".toList
    contents := contents
    commonPrefixes := commonPrefixes }

def readPage (body : List UInt8) : Option Shown :=
  (read (fromUtf8Lossy body)).bind fun root => (root.rows "ListBucketResult".toList).head?.bind readRows

/-! What there is to read. -/

def shownEntry (wire : Wire) (c : ListEntry) : ShownEntry :=
  ⟨c.key, c.lastModified.bind wire.iso8601, c.etag.map quoteEtag, c.size⟩

def shownPage (wire : Wire) (bucket : Text) (params : ListParams) (page : Page) : Shown where
  bucket := bucket
  keyPrefix := params.keyPrefix
  startAfter := if params.isV2 then params.startAfter else none
  continuationToken := if params.isV2 then params.continuationToken else none
  nextToken := if params.isV2 then page.token else none
  keyCount := if params.isV2 then some (page.items.contents.length + page.items.commonPrefixes.length) else none
  maxKeys := params.maxKeysRaw.getD ['1', '0', '0', '0']
  marker := if params.isV2 then none else params.marker
  nextMarker := if params.isV2 then none else page.nextMarker params
  delimiter := params.delimiter
  truncated := page.truncated
  contents := page.items.contents.map (shownEntry wire)
  commonPrefixes := page.items.commonPrefixes

/-! Writing the rows. -/

/-- A name that can be the tag of an element as it stands. -/
def Proper (name : String) : Prop := nameOf name.toList = name.toList ∧ FineTag name.toList = true

instance (name : String) : Decidable (Proper name) :=
  inferInstanceAs (Decidable (nameOf name.toList = name.toList ∧ FineTag name.toList = true))

theorem proper : Proper "Name" ∧ Proper "Prefix" ∧ Proper "StartAfter" ∧ Proper "ContinuationToken" ∧
    Proper "NextContinuationToken" ∧ Proper "KeyCount" ∧ Proper "MaxKeys" ∧ Proper "Delimiter" ∧
    Proper "EncodingType" ∧ Proper "Marker" ∧ Proper "NextMarker" ∧ Proper "IsTruncated" ∧ Proper "Contents" ∧
    Proper "Key" ∧ Proper "LastModified" ∧ Proper "ETag" ∧ Proper "Size" ∧ Proper "Owner" ∧ Proper "ID" ∧
    Proper "DisplayName" ∧ Proper "StorageClass" ∧ Proper "CommonPrefixes" := by
  decide

theorem write_field (name : String) (text : Text) (named : Proper name) :
    (field name text).write = element name text := by
  simp only [field, Row.write, opening, ending, named.1, element, String.toList_append, List.append_nil]
  rfl

theorem write_group (name : String) (inner : Row) (named : Proper name) :
    (group name inner).write = element name inner.write := by
  simp only [group, Row.write, opening, ending, named.1, element, String.toList_append, List.append_nil]
  rfl

theorem write_given (name : String) (value : Option Text) (named : Proper name) :
    (given name value).write = optional value (element name) := by
  cases value with
  | none => rfl
  | some text => exact write_field name text named

theorem optional_map (value : Option Text) (f : Text → Text) (render : Text → Text) :
    optional (value.map f) render = optional value fun text => render (f text) := by
  cases value <;> rfl

section Writing
variable (wire : Wire) (bucket : Text) (params : ListParams)

theorem write_owner : (owner params).write = if params.fetchOwner then
    element "Owner" (element "ID" "origin-cache".toList ++ element "DisplayName" "origin-cache".toList) else [] := by
  unfold owner
  by_cases fetch : params.fetchOwner = true
  · simp only [fetch, if_true, write_group, write_append, write_field, proper]
  · simp only [fetch, if_false, Bool.false_eq_true]
    rfl

theorem write_contentRow (c : ListEntry) : (contentRow wire params c).write = renderContent wire params c := by
  simp only [contentRow, entryRow, write_group, write_append, write_field, write_given, write_owner, optional_map,
    proper]
  rfl

theorem write_prefixRow (p : Text) : (prefixRow params p).write = renderPrefix params p := by
  simp only [prefixRow, write_group, write_field, proper]
  rfl

theorem write_optionRows : (optionRows params).write = renderOptions params := by
  simp only [optionRows, write_append, write_given, optional_map, proper]
  unfold renderOptions
  cases params.encodingUrl <;> rfl

theorem write_maxKeysRow : (maxKeysRow params).write = maxKeysEcho params := by
  simp only [maxKeysRow, write_field, proper]
  rfl

theorem write_fieldRows (page : Page) :
    (fieldRows params page).write = renderFields params page.items page.truncated page.token := by
  cases dialect : params.isV2 with
  | true =>
    rw [fieldRows, renderFields, if_pos dialect, if_pos dialect]
    simp only [write_append, write_given, write_field, write_maxKeysRow, write_optionRows, optional_map, proper]
  | false =>
    rw [fieldRows, dialect, if_neg Bool.false_ne_true, renderFields_marker params page dialect]
    simp only [write_append, write_given, write_maxKeysRow, write_optionRows, optional_map, proper]

theorem write_itemRows (items : PageItems) : (itemRows wire params items).write =
    items.contents.flatMap (renderContent wire params) ++ items.commonPrefixes.flatMap (renderPrefix params) := by
  rw [itemRows, write_append, write_concat, write_concat, List.flatMap_map, List.flatMap_map]
  simp only [write_contentRow, write_prefixRow]

def declared : Text := "xml version=\"1.0\" encoding=\"UTF-8\"?".toList

theorem opened : '<' :: '?' :: declared ++ '>' :: ['\n'] ++ opening rootTag =
    "<?xml version=\"1.0\" encoding=\"UTF-8\"?>\n".toList ++
      "<ListBucketResult xmlns=\"http://s3.amazonaws.com/doc/2006-03-01/\">".toList := by
  decide

theorem closed : opening (ending rootTag) = renderClosing := by
  decide

theorem write_headRows (page : Page) : (headRows bucket params page).write =
    element "Name" (xmlEscape bucket) ++ element "Prefix" (encMaybe params params.keyPrefix) ++
      renderFields params page.items page.truncated page.token ++ renderTruncated page.truncated := by
  simp only [headRows, write_append, write_field, write_fieldRows, proper]
  rfl

theorem renderXml_rows (page : Page) : renderXml wire bucket params page.items page.truncated page.token =
    '<' :: '?' :: declared ++ '>' :: ['\n'] ++ (documentRow wire bucket params page).write := by
  have whole : (documentRow wire bucket params page).write = opening rootTag ++
      ((headRows bucket params page).write ++ (itemRows wire params page.items).write) ++ renderClosing := by
    rw [documentRow, Row.write, pageRows, write_append, closed, Row.write, List.append_nil]
  rw [whole, write_headRows, write_itemRows]
  unfold renderXml renderOpening
  rw [← opened]
  simp only [List.append_assoc]

end Writing

/-! What can be written can be read. -/

theorem fine_field (name : String) (text : Text) (named : Proper name) (free : '<' ∉ text) :
    (field name text).Fine := ⟨named.2, free, trivial⟩

theorem field_ne_done (name : String) (text : Text) : field name text ≠ .done := by
  intro same
  cases same

theorem fine_given (name : String) (value : Option Text) (named : Proper name)
    (free : ∀ text ∈ value, '<' ∉ text) : (given name value).Fine := by
  cases value with
  | none => exact trivial
  | some text => exact fine_field name text named (free text rfl)

theorem fine_group (name : String) (inner : Row) (named : Proper name) (holds : inner ≠ .done) (fine : inner.Fine) :
    (group name inner).Fine := ⟨named.2, holds, fine, trivial⟩

theorem xmlEscape_free (s : Text) : '<' ∉ xmlEscape s := (encodings_invert s).2.2.1

theorem encMaybe_free (params : ListParams) (s : Text) : '<' ∉ encMaybe params s := by
  unfold encMaybe
  split_ifs
  · intro member
    exact (encodings_invert s).1.2 '<' member (by decide)
  · exact xmlEscape_free s

theorem mapped_free (f : Text → Text) (free : ∀ s, '<' ∉ f s) (value : Option Text) :
    ∀ text ∈ value.map f, '<' ∉ text := by
  intro text member
  obtain ⟨s, -, rfl⟩ := Option.mem_map.mp member
  exact free s

theorem numeral_free (n : Nat) : '<' ∉ numeral n := not_mem_numeral n '<' (by decide)

/-- Converted dates hold nothing that XML gives a meaning to. -/
def PlainDates (wire : Wire) : Prop := ∀ s text, wire.iso8601 s = some text → '<' ∉ text ∧ '&' ∉ text

section Reading
variable {wire : Wire} (bucket : Text) (params : ListParams)

theorem fine_contentRow (dates : PlainDates wire) (c : ListEntry) : (contentRow wire params c).Fine := by
  have key := fine_field "Key" _ (by simp only [proper]) (encMaybe_free params c.key)
  have dated : (given "LastModified" (c.lastModified.bind wire.iso8601)).Fine := by
    apply fine_given _ _ (by simp only [proper])
    intro text member
    obtain ⟨s, -, converted⟩ := Option.mem_bind_iff.mp member
    exact (dates s text converted).1
  have tagged := fine_given "ETag" _ (by simp only [proper])
    (mapped_free (fun etag => xmlEscape (quoteEtag etag)) (fun _ => xmlEscape_free _) c.etag)
  have sized := fine_field "Size" _ (by simp only [proper]) (numeral_free c.size)
  have owned : (owner params).Fine := by
    unfold owner
    split_ifs
    · have named := fine_field "ID" "origin-cache".toList (by simp only [proper]) (by decide)
      have shown := fine_field "DisplayName" "origin-cache".toList (by simp only [proper]) (by decide)
      exact fine_group _ _ (by simp only [proper]) (append_ne_done _ _ (field_ne_done _ _))
        ((fine_append _ _).mpr ⟨named, shown⟩)
    · exact trivial
  have stored := fine_field "StorageClass" "STANDARD".toList (by simp only [proper]) (by decide)
  apply fine_group _ _ (by simp only [proper])
  · iterate 5 apply append_ne_done
    exact field_ne_done _ _
  · simp only [entryRow, fine_append]
    exact ⟨⟨⟨⟨⟨key, dated⟩, tagged⟩, sized⟩, owned⟩, stored⟩

theorem fine_prefixRow (p : Text) : (prefixRow params p).Fine := by
  have named := fine_field "Prefix" _ (by simp only [proper]) (encMaybe_free params p)
  exact fine_group _ _ (by simp only [proper]) (field_ne_done _ _) named

theorem fine_itemRows (dates : PlainDates wire) (items : PageItems) : (itemRows wire params items).Fine := by
  refine (fine_append _ _).mpr ⟨fine_concat _ ?_, fine_concat _ ?_⟩
  · intro row member
    obtain ⟨c, -, rfl⟩ := List.mem_map.mp member
    exact fine_contentRow params dates c
  · intro row member
    obtain ⟨p, -, rfl⟩ := List.mem_map.mp member
    exact fine_prefixRow params p

theorem fine_optionRows : (optionRows params).Fine := by
  refine (fine_append _ _).mpr ⟨fine_given _ _ (by simp only [proper]) (mapped_free _ (encMaybe_free params) _), ?_⟩
  apply fine_given _ _ (by simp only [proper])
  intro text member
  split_ifs at member
  · cases member
    decide
  · cases member

theorem fine_fieldRows (page : Page) : (fieldRows params page).Fine := by
  have options := fine_optionRows params
  have keys : (maxKeysRow params).Fine := fine_field _ _ (by simp only [proper]) (xmlEscape_free _)
  unfold fieldRows
  split_ifs
  · simp only [fine_append]
    refine ⟨⟨⟨⟨⟨?_, ?_⟩, ?_⟩, ?_⟩, keys⟩, options⟩
    · exact fine_given _ _ (by simp only [proper]) (mapped_free _ (encMaybe_free params) _)
    · exact fine_given _ _ (by simp only [proper]) (mapped_free _ xmlEscape_free _)
    · exact fine_given _ _ (by simp only [proper]) (mapped_free _ xmlEscape_free _)
    · exact fine_field _ _ (by simp only [proper]) (numeral_free _)
  · simp only [fine_append]
    refine ⟨⟨⟨keys, ?_⟩, ?_⟩, options⟩
    · exact fine_given _ _ (by simp only [proper]) (mapped_free _ (encMaybe_free params) _)
    · exact fine_given _ _ (by simp only [proper]) (mapped_free _ (encMaybe_free params) _)

theorem fine_documentRow (dates : PlainDates wire) (page : Page) : (documentRow wire bucket params page).Fine := by
  have named := fine_field "Name" _ (by simp only [proper]) (xmlEscape_free bucket)
  have keys := fine_field "Prefix" _ (by simp only [proper]) (encMaybe_free params params.keyPrefix)
  have truncated : (field "IsTruncated" (if page.truncated then "true".toList else "false".toList)).Fine := by
    apply fine_field _ _ (by simp only [proper])
    split_ifs <;> decide
  refine ⟨by decide, ?_, ?_, trivial⟩
  · iterate 4 apply append_ne_done
    exact field_ne_done _ _
  · simp only [pageRows, headRows, fine_append]
    have items := fine_itemRows params dates page.items
    exact ⟨⟨⟨⟨named, keys⟩, fine_fieldRows params page⟩, truncated⟩, items⟩

end Reading

/-! What is found in the rows. -/

section Finding
variable (row other : Row) (name wanted : String) (text : Text) (value : Option Text) (inner : Row)

theorem first_append : first (row ++ other) wanted = (first row wanted).or (first other wanted) := by
  rw [first, texts_append, List.head?_append, first, first]

theorem first_field (named : Proper name) :
    first (field name text) wanted = if name = wanted then some text else none := by
  unfold first field
  rw [Row.texts, named.1, Row.texts]
  by_cases same : name = wanted
  · rw [if_pos same, if_pos (congrArg String.toList same)]
    rfl
  · rw [if_neg same, if_neg fun lists => same (String.toList_inj.mp lists)]
    rfl

theorem first_given (named : Proper name) :
    first (given name value) wanted = if name = wanted then value else none := by
  cases value with
  | none =>
    split_ifs <;> rfl
  | some text => exact first_field name wanted text named

theorem first_concat (rows : List Row) (none_ : ∀ each ∈ rows, first each wanted = none) :
    first (concat rows) wanted = none := by
  rw [first, texts_concat, List.head?_eq_none_iff, List.flatMap_eq_nil_iff]
  intro each member
  exact List.head?_eq_none_iff.mp (none_ each member)

theorem resolved_given : (given name value).resolved = given name (value.map unescape) := by
  cases value <;> rfl

theorem rows_given : (given name value).rows wanted.toList = [] := by
  cases value <;> rfl

end Finding

theorem unescape_free (text : Text) (free : '&' ∉ text) : unescape text = text := by
  induction text with
  | nil => rfl
  | cons c text ih =>
    have other : c ≠ '&' := fun same => free (same ▸ List.mem_cons_self)
    rw [unescape_plain c text other, ih fun member => free (List.mem_cons_of_mem c member)]

theorem readKey_encMaybe (params : ListParams) (s : Text) :
    readKey params.encodingUrl (unescape (encMaybe params s)) = s := by
  unfold encMaybe readKey
  by_cases url : params.encodingUrl = true
  · have free : '&' ∉ awsUrlEncode s := fun member => (encodings_invert s).1.2 '&' member (by decide)
    rw [if_pos url, if_pos url, unescape_free _ free, (encodings_invert s).1.1]
  · rw [if_neg url, if_neg url, unescape_xmlEscape]

theorem unescape_numeral (n : Nat) : unescape (numeral n) = numeral n :=
  unescape_free _ (not_mem_numeral n '&' (by decide))

section Reads
variable {wire : Wire} (bucket : Text) (params : ListParams)

@[simp] theorem resolved_field (name : String) (text : Text) :
    (field name text).resolved = field name (unescape text) := rfl

theorem resolved_optionRows : (optionRows params).resolved =
    given "Delimiter" ((params.delimiter.map (encMaybe params)).map unescape) ++
      given "EncodingType" (if params.encodingUrl then some ['u', 'r', 'l'] else none) := by
  rw [optionRows, resolved_append, resolved_given, resolved_given]
  cases params.encodingUrl <;> rfl

theorem resolved_maxKeysRow :
    (maxKeysRow params).resolved = field "MaxKeys" (params.maxKeysRaw.getD ['1', '0', '0', '0']) := by
  rw [maxKeysRow, resolved_field, unescape_xmlEscape]

theorem first_owner (wanted : String) : first (owner params).resolved wanted = none := by
  unfold owner
  split_ifs <;> rfl

/-- The fields of an entry, as they are read. -/
theorem readEntry_entryRow (dates : PlainDates wire) (c : ListEntry) (sized : c.size < 2 ^ 64) :
    readEntry params.encodingUrl (entryRow wire params c).resolved = some (shownEntry wire c) := by
  have dated : (c.lastModified.bind wire.iso8601).map unescape = c.lastModified.bind wire.iso8601 := by
    cases converted : c.lastModified.bind wire.iso8601 with
    | none => rfl
    | some text =>
      obtain ⟨s, -, written⟩ := Option.bind_eq_some_iff.mp converted
      rw [Option.map_some, unescape_free text (dates s text written).2]
  have tagged : (c.etag.map fun etag => xmlEscape (quoteEtag etag)).map unescape = c.etag.map quoteEtag := by
    rw [Option.map_map]
    exact congrArg (fun f => c.etag.map f) (funext fun etag => unescape_xmlEscape (quoteEtag etag))
  have find (wanted : String) := first_owner params wanted
  simp only [readEntry, entryRow, resolved_append, first_append, resolved_given, resolved_field, find, dated, tagged]
  simp only [first_field, first_given, proper, String.reduceEq, if_true, if_false, Option.none_or,
    Option.or_none]
  simp only [Option.bind_eq_bind, Option.bind_some, unescape_numeral, parseU64_numeral c.size sized, readKey_encMaybe]
  rfl

theorem readPrefix_prefixRow (p : Text) :
    readPrefix params.encodingUrl (field "Prefix" (encMaybe params p)).resolved = some p := by
  rw [readPrefix, resolved_field, first_field _ _ _ (by simp only [proper]), if_pos rfl, Option.map_some,
    readKey_encMaybe]

theorem first_itemRows (items : PageItems) (wanted : String) :
    first (itemRows wire params items).resolved wanted = none := by
  rw [itemRows, resolved_append, resolved_concat, resolved_concat, first_append, first_concat, first_concat]
  · rfl
  · intro each member
    obtain ⟨row, inside, rfl⟩ := List.mem_map.mp member
    obtain ⟨p, -, rfl⟩ := List.mem_map.mp inside
    rfl
  · intro each member
    obtain ⟨row, inside, rfl⟩ := List.mem_map.mp member
    obtain ⟨c, -, rfl⟩ := List.mem_map.mp inside
    rfl

theorem resolved_headRows (page : Page) : (headRows bucket params page).resolved =
    field "Name" bucket ++ field "Prefix" (unescape (encMaybe params params.keyPrefix)) ++
      (fieldRows params page).resolved ++
      field "IsTruncated" (if page.truncated then "true".toList else "false".toList) := by
  simp only [headRows, resolved_append, resolved_field, unescape_xmlEscape]
  cases page.truncated <;> rfl

theorem rows_headRows (page : Page) (wanted : String) :
    (headRows bucket params page).resolved.rows wanted.toList = [] := by
  have rows_field (name : String) (text : Text) : (field name text).rows wanted.toList = [] := rfl
  have inner : (fieldRows params page).resolved.rows wanted.toList = [] := by
    unfold fieldRows
    split_ifs
    all_goals
      simp only [resolved_append, rows_append, resolved_given, resolved_field, resolved_maxKeysRow, resolved_optionRows,
        rows_given, rows_field, List.append_nil]
  rw [resolved_headRows, rows_append, rows_append, rows_append, inner, rows_field, rows_field, rows_field]
  rfl

theorem rows_group (name wanted : String) (inner : Row) (named : Proper name) :
    (group name inner).resolved.rows wanted.toList = if name = wanted then [inner.resolved] else [] := by
  unfold group
  rw [Row.resolved, Row.rows, named.1, Row.resolved, Row.rows]
  by_cases same : name = wanted
  · rw [if_pos same, if_pos (congrArg String.toList same)]
  · rw [if_neg same, if_neg fun lists => same (String.toList_inj.mp lists)]

/-- The rows of a block are found under its name, in their order. -/
theorem rows_block {α : Type} (name wanted : String) (items : List α) (inner : α → Row) (named : Proper name) :
    (concat (items.map fun item => group name (inner item))).resolved.rows wanted.toList =
      if name = wanted then items.map fun item => (inner item).resolved else [] := by
  rw [resolved_concat, rows_concat, List.map_map, List.flatMap_map]
  simp only [Function.comp_apply, rows_group name wanted _ named]
  split_ifs
  · exact List.flatMap_pure_eq_map (fun item => (inner item).resolved) items
  · exact List.flatMap_eq_nil_iff.mpr fun _ _ => rfl

theorem readKeys (value : Option Text) :
    ((value.map (encMaybe params)).map unescape).map (readKey params.encodingUrl) = value := by
  cases value with
  | none => rfl
  | some s => exact congrArg some (readKey_encMaybe params s)

theorem unescape_escaped (value : Option Text) : (value.map xmlEscape).map unescape = value := by
  cases value with
  | none => rfl
  | some s => exact congrArg some (unescape_xmlEscape s)

theorem mapM_some {α β : Type} (f : α → Option β) (g : α → β) (items : List α)
    (each : ∀ item ∈ items, f item = some (g item)) : items.mapM f = some (items.map g) := by
  induction items with
  | nil => rfl
  | cons item items ih =>
    have later := ih fun other member => each other (List.mem_cons_of_mem item member)
    rw [List.mapM_cons, each item List.mem_cons_self, later]
    rfl

theorem rows_pageRows (page : Page) (wanted : String) : (pageRows wire bucket params page).resolved.rows wanted.toList =
    (if "Contents" = wanted then page.items.contents.map fun c => (entryRow wire params c).resolved else []) ++
      if "CommonPrefixes" = wanted then
        page.items.commonPrefixes.map fun p => (field "Prefix" (encMaybe params p)).resolved
      else [] := by
  have contents := rows_block "Contents" wanted page.items.contents (entryRow wire params)
    (by simp only [proper])
  have dirs := rows_block "CommonPrefixes" wanted page.items.commonPrefixes
    (fun p => field "Prefix" (encMaybe params p)) (by simp only [proper])
  rw [pageRows, resolved_append, rows_append, rows_headRows, itemRows, resolved_append, rows_append, List.nil_append]
  exact congrArg₂ (· ++ ·) contents dirs

theorem readRows_pageRows (dates : PlainDates wire) (page : Page)
    (sized : ∀ c ∈ page.items.contents, c.size < 2 ^ 64)
    (few : page.items.contents.length + page.items.commonPrefixes.length < 2 ^ 64) :
    readRows (pageRows wire bucket params page).resolved = some (shownPage wire bucket params page) := by
  have contents : (page.items.contents.map fun c => (entryRow wire params c).resolved).mapM
      (readEntry params.encodingUrl) = some (page.items.contents.map (shownEntry wire)) := by
    rw [List.mapM_map]
    exact mapM_some _ _ _ fun c member => readEntry_entryRow params dates c (sized c member)
  have dirs : (page.items.commonPrefixes.map fun p => (field "Prefix" (encMaybe params p)).resolved).mapM
      (readPrefix params.encodingUrl) = some page.items.commonPrefixes := by
    rw [List.mapM_map]
    have each := mapM_some (fun p => readPrefix params.encodingUrl (field "Prefix" (encMaybe params p)).resolved) id
      page.items.commonPrefixes fun p _ => readPrefix_prefixRow params p
    rwa [List.map_id] at each
  have head (wanted : String) : first (pageRows wire bucket params page).resolved wanted =
      first (headRows bucket params page).resolved wanted := by
    rw [pageRows, resolved_append, first_append, first_itemRows, Option.or_none]
  have rows (wanted : String) : (pageRows wire bucket params page).resolved.rows wanted.toList = _ :=
    rows_pageRows bucket params page wanted
  have numbered := parseU64_numeral _ few
  have url : decide ((if params.encodingUrl then some ['u', 'r', 'l'] else none) = some ['u', 'r', 'l']) =
      params.encodingUrl := by
    cases params.encodingUrl <;> rfl
  have truncated : decide ((if page.truncated then "true".toList else "false".toList) = "true".toList) =
      page.truncated := by
    cases page.truncated <;> rfl
  simp only [readRows, head, rows, resolved_headRows, first_append, fieldRows, shownPage]
  cases dialect : params.isV2 with
  | true =>
    simp only [if_true, resolved_append, first_append, resolved_given, resolved_field, resolved_maxKeysRow,
      resolved_optionRows]
    simp only [first_field, first_given, proper, String.reduceEq, if_true, if_false, Option.none_or,
      Option.or_none, url, List.append_nil, List.nil_append, unescape_numeral, readKeys, unescape_escaped]
    simp only [← resolved_field, contents, dirs, Option.bind_eq_bind, Option.bind_some, numbered, readKey_encMaybe,
      truncated]
    rfl
  | false =>
    simp only [if_false, resolved_append, first_append, resolved_given, resolved_field, resolved_maxKeysRow,
      resolved_optionRows, Bool.false_eq_true]
    simp only [first_field, first_given, proper, String.reduceEq, if_true, if_false, Option.none_or,
      Option.or_none, url, List.append_nil, List.nil_append, readKeys]
    simp only [← resolved_field, contents, dirs, Option.bind_eq_bind, Option.bind_some, readKey_encMaybe, truncated]
    rfl

end Reads

/-- The document of a page is read back as the page. -/
theorem readPage_renderXml {wire : Wire} (dates : PlainDates wire) (bucket : Text) (params : ListParams) (page : Page)
    (sized : ∀ c ∈ page.items.contents, c.size < 2 ^ 64)
    (few : page.items.contents.length + page.items.commonPrefixes.length < 2 ^ 64) :
    readPage (utf8 (renderXml wire bucket params page.items page.truncated page.token)) =
      some (shownPage wire bucket params page) := by
  have written : read (renderXml wire bucket params page.items page.truncated page.token) =
      some (documentRow wire bucket params page).resolved := by
    rw [renderXml_rows]
    have blank : ∀ c ∈ ['\n'], c.isWhitespace = true := by
      intro c member
      rw [List.mem_singleton.mp member]
      rfl
    exact read_write declared ['\n'] _ (by decide) blank (fine_documentRow bucket params dates page)
  have root : (documentRow wire bucket params page).resolved.rows "ListBucketResult".toList =
      [(pageRows wire bucket params page).resolved] := by
    have named : nameOf rootTag = "ListBucketResult".toList := by decide
    rw [documentRow, Row.resolved, Row.rows, if_pos named]
    rfl
  rw [readPage, fromUtf8Lossy_utf8, written, Option.bind_some, root, List.head?_cons, Option.bind_some,
    readRows_pageRows bucket params dates page sized few]

/-! A client that sees documents only. -/

/-- Its next request: with the token it read, or with the NextMarker. -/
def followShown (params : ListParams) (shown : Shown) : ListParams :=
  if params.isV2 then { params with continuationToken := shown.nextToken }
  else { params with marker := shown.nextMarker }

section Clients
variable (wire : Wire) (bucket pathKey : Text) (ids : RequestIds)

/-- Page after page until one says that it is not truncated, each cut from its own
listing; nothing when an answer is no page. -/
def browse : ListParams → List (List ListEntry) → Option (List Shown × Bool)
  | _, [] => some ([], false)
  | params, entries :: later => do
      let response := listPage wire bucket params pathKey ids (.ok entries)
      let shown ← if response.status = 200 then readPage response.body else none
      if shown.truncated then
        let rest ← browse (followShown params shown) later
        some (shown :: rest.1, rest.2)
      else some ([shown], true)

/-- What the pages of a walk show, each under the request it answers. -/
def shownPages : ListParams → List Page → List Shown
  | _, [] => []
  | params, page :: pages => shownPage wire bucket params page :: shownPages (follow params page) pages

end Clients

theorem followShown_shownPage (wire : Wire) (bucket : Text) (params : ListParams) (page : Page) :
    followShown params (shownPage wire bucket params page) = follow params page := by
  unfold followShown follow shownPage
  by_cases dialect : params.isV2 = true
  · simp only [dialect, if_true]
  · simp only [dialect, if_false, Bool.false_eq_true]

theorem mem_selectItems {entries : List ListEntry} {params : ListParams} {c : ListEntry}
    (member : c ∈ (selectItems entries params).contents) : c ∈ entries := by
  unfold selectItems at member
  have sorted := (List.mem_filter.mp member).1
  exact (List.mem_filter.mp (List.mem_filter.mp ((List.mem_insertionSort _).mp sorted)).1).1

/-- A page is made of entries of its listing, and of no more than it may hold. -/
theorem pageOf_items {wire : Wire} {params : ListParams} {entries : List ListEntry} {page : Page}
    (made : pageOf wire params entries = some page) :
    (∀ c ∈ page.items.contents, c ∈ entries) ∧
      page.items.contents.length + page.items.commonPrefixes.length ≤ params.cap := by
  obtain ⟨resume, -, rfl⟩ := Option.map_eq_some_iff.mp made
  by_cases none_ : params.cap = 0
  · simp only [none_, if_true]
    constructor
    · intro c member
      cases member
    · exact Nat.le_refl _
  · simp only [none_, if_false]
    constructor
    · intro c member
      have left := (Pages.resumed_sublist _ resume).1.subset (List.mem_of_mem_take member)
      exact mem_selectItems left
    · simp only [cut, List.length_take]
      omega

/-- A client that sees documents only goes through the pages of a walk, and reads every
name, token and size in them as it was, whatever the names are made of. -/
theorem browse_walk {wire : Wire} (dates : PlainDates wire) (bucket pathKey : Text) (ids : RequestIds)
    (params : ListParams) (snapshots : List (List ListEntry))
    (sized : ∀ entries ∈ snapshots, ∀ e ∈ entries, e.size < 2 ^ 64) :
    browse wire bucket pathKey ids params snapshots =
      (walk wire params snapshots).map fun seen => (shownPages wire bucket params seen.1, seen.2) := by
  induction snapshots generalizing params with
  | nil => rfl
  | cons entries later ih =>
    have after := fun params => ih params fun others member => sized others (List.mem_cons_of_mem entries member)
    rw [browse, walk, listPage_pageOf]
    cases made : pageOf wire params entries with
    | none => rfl
    | some page =>
      obtain ⟨inside, few⟩ := pageOf_items made
      have cap : params.cap ≤ 1000 := Nat.min_le_right _ _
      have shown := readPage_renderXml dates bucket params page
        (fun c member => sized entries List.mem_cons_self c (inside c member)) (by omega)
      have next := followShown_shownPage wire bucket params page
      simp only [if_true, shown, Option.bind_eq_bind, Option.bind_some, next, after]
      cases more : page.truncated with
      | true =>
        have goes : (shownPage wire bucket params page).truncated = true := more
        simp only [goes, if_true]
        cases walk wire (follow params page) later <;> rfl
      | false =>
        have stops : (shownPage wire bucket params page).truncated = false := more
        simp only [stops, if_false, Bool.false_eq_true]
        rfl

/-! A name with markup in it, in two pages of one item. -/

def markedListing : List ListEntry :=
  [⟨['a', '<', '&', '+'], 1, some ['e'], none, false⟩, ⟨['b', ' ', '%'], 2, none, none, false⟩]

def markedParams : ListParams := { sampleParams with encodingUrl := true }

theorem browse_walk_marked :
    ((browse sampleWire ['u'] [] ⟨[], []⟩ markedParams [markedListing, markedListing]).map fun seen =>
      (seen.1.flatMap fun shown => shown.contents.map fun e => (e.key, e.etag, e.size), seen.2)) =
      some ([(['a', '<', '&', '+'], some ['"', 'e', '"'], 1), (['b', ' ', '%'], none, 2)], true) := by
  have dates : PlainDates sampleWire := by
    intro s text converted
    cases converted
  rw [browse_walk dates ['u'] [] ⟨[], []⟩ markedParams [markedListing, markedListing] (by decide)]
  decide

end OriginCache.Request.Documents
