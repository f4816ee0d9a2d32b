import OriginCache.Cache.Magazine

/-! What one sweep over the magazine's two budgets removes: how far it goes, in which
order, and what it leaves. -/

namespace OriginCache.Cache.Victims
open Foundation.Tables SegName Meta Magazine

/-- Strays stand outside the byte budget. -/
def countedSize (m : EntryMeta) : Nat := if m.oversize then 0 else m.sizeBytes

def countedBytes (s : CacheState) : Nat := weigh (fun _ m => countedSize m) s.entries

def entryCount (s : CacheState) : Nat := s.entries.entries.length

/-- A limit of no entries is no limit. -/
structure WithinBudgets (config : Config) (s : CacheState) : Prop where
  bytes : countedBytes s ≤ config.maxSizeBytes
  rows : config.maxEntries = 0 ∨ entryCount s ≤ config.maxEntries

def removable (spared : List Text) (key : Text) (m : EntryMeta) : Bool :=
  m.negativeUntilMillis.isNone && !m.oversize && key ∉ spared

/-- The table and its total after some keys are taken out. -/
@[grind =] def without (s : CacheState) : List Text → CacheState
  | [] => s
  | key :: rest =>
      match s.entries.lookup key with
      | some m => without (removeRow s key m) rest
      | none => without s rest

def freedBy (s : CacheState) (keys : List Text) : Nat := (keys.map (rowSize s)).sum

/-! What the budgets count. -/

theorem residentBytes_eq (s : CacheState) (balanced : Balanced s) : residentBytes s = countedBytes s := by
  have split (entries : List (Sigma fun _ : Text => EntryMeta)) :
      (entries.map fun entry => entry.2.sizeBytes).sum =
        (entries.map fun entry => countedSize entry.2).sum +
          ((entries.filter fun entry => entry.2.oversize).map fun entry => entry.2.sizeBytes).sum := by
    induction entries with
    | nil => rfl
    | cons entry rest ih =>
      by_cases stray : entry.2.oversize = true
      · have size : countedSize entry.2 = 0 := if_pos stray
        simp only [List.map_cons, List.sum_cons, List.filter_cons, size, stray, if_true]
        omega
      · have size : countedSize entry.2 = entry.2.sizeBytes := if_neg stray
        simp only [List.map_cons, List.sum_cons, List.filter_cons, size, stray, Bool.false_eq_true, if_false]
        omega
  have total := split s.entries.entries
  change s.totalBytes = (s.entries.entries.map fun entry => entry.2.sizeBytes).sum at balanced
  change s.totalBytes - _ = (s.entries.entries.map fun entry => countedSize entry.2).sum
  rw [balanced, total]
  exact Nat.add_sub_cancel _ _

theorem countedBytes_removeRow (s : CacheState) (key : Text) (m : EntryMeta)
    (found : s.entries.lookup key = some m) (counts : m.oversize = false) :
    countedBytes (removeRow s key m) + m.sizeBytes = countedBytes s := by
  have whole := weigh_erase (fun (_ : Text) (m : EntryMeta) => countedSize m) s.entries key m found
  have size : countedSize m = m.sizeBytes := by rw [countedSize, counts]; rfl
  change weigh (fun (_ : Text) (m : EntryMeta) => countedSize m) (s.entries.erase key) + m.sizeBytes =
    weigh (fun (_ : Text) (m : EntryMeta) => countedSize m) s.entries
  omega

theorem entryCount_removeRow (s : CacheState) (key : Text) (m : EntryMeta)
    (found : s.entries.lookup key = some m) : entryCount (removeRow s key m) + 1 = entryCount s := by
  have whole := weigh_erase (fun (_ : Text) (_ : EntryMeta) => 1) s.entries key m found
  have ones (entries : List (Sigma fun _ : Text => EntryMeta)) : (entries.map fun _ => 1).sum = entries.length := by
    rw [List.map_const', List.sum_replicate_nat, Nat.mul_one]
  unfold weigh at whole
  rw [ones, ones] at whole
  change (s.entries.erase key).entries.length + 1 = s.entries.entries.length
  omega

theorem lookup_removeRow (s : CacheState) (key other : Text) (m : EntryMeta) :
    (removeRow s key m).entries.lookup other = if other = key then none else s.entries.lookup other := by
  by_cases same : other = key
  · rw [if_pos same, same]
    exact AList.lookup_erase key s.entries
  · rw [if_neg same]
    exact AList.lookup_erase_ne same

theorem rowSize_removeRow (s : CacheState) (key other : Text) (m : EntryMeta) (differs : other ≠ key) :
    rowSize (removeRow s key m) other = rowSize s other := by
  rw [rowSize, lookup_removeRow, if_neg differs]
  rfl

theorem freedBy_removeRow (s : CacheState) (key : Text) (m : EntryMeta) (keys : List Text) (other : key ∉ keys) :
    freedBy (removeRow s key m) keys = freedBy s keys := by
  unfold freedBy
  congr 1
  apply List.map_congr_left
  intro k member
  exact rowSize_removeRow s key k m fun same => other (same ▸ member)

theorem rowSize_found (s : CacheState) (key : Text) (m : EntryMeta) (found : s.entries.lookup key = some m) :
    rowSize s key = m.sizeBytes := by
  rw [rowSize, found]
  rfl

/-! Taking keys out. -/

theorem lookup_without (s : CacheState) (keys : List Text) (key : Text) :
    (without s keys).entries.lookup key = if key ∈ keys then none else s.entries.lookup key := by
  induction keys generalizing s with
  | nil => rfl
  | cons first rest ih =>
    rw [without]
    cases found : s.entries.lookup first with
    | none =>
      rw [ih]
      by_cases same : key = first
      · subst same
        simp [found]
      · simp [same]
    | some m =>
      rw [ih, lookup_removeRow]
      by_cases same : key = first
      · simp [same]
      · simp [same]

/-- Every key has a row that counts. -/
def Counting (s : CacheState) (keys : List Text) : Prop :=
  ∀ key ∈ keys, ∃ m, s.entries.lookup key = some m ∧ m.oversize = false

theorem Counting.tail (s : CacheState) (key : Text) (m : EntryMeta) (keys : List Text)
    (counting : Counting s (key :: keys)) (other : key ∉ keys) : Counting (removeRow s key m) keys := by
  intro k member
  have differs : k ≠ key := fun same => other (same ▸ member)
  rw [lookup_removeRow, if_neg differs]
  exact counting k (List.mem_cons_of_mem _ member)

/-- What goes out is missing from the bytes and from the rows. -/
theorem without_counts (s : CacheState) (keys : List Text) (distinct : keys.Nodup) (counting : Counting s keys) :
    countedBytes (without s keys) + freedBy s keys = countedBytes s ∧
      entryCount (without s keys) + keys.length = entryCount s := by
  induction keys generalizing s with
  | nil => exact ⟨rfl, rfl⟩
  | cons key rest ih =>
    obtain ⟨other, later⟩ := List.nodup_cons.mp distinct
    obtain ⟨m, found, counts⟩ := counting key List.mem_cons_self
    have more := ih (removeRow s key m) later (counting.tail s key m rest other)
    have bytes := countedBytes_removeRow s key m found counts
    have rows := entryCount_removeRow s key m found
    have size : freedBy s (key :: rest) = m.sizeBytes + freedBy s rest := by
      rw [freedBy, List.map_cons, List.sum_cons, rowSize_found s key m found]
      rfl
    have same := freedBy_removeRow s key m rest other
    rw [without, found]
    simp only [List.length_cons]
    omega

/-- The loop takes the shortest prefix that covers both overshoots, or everything. -/
theorem takeRows_spec (bytesOver rowsOver freed : Nat) (s : CacheState) (out : List (Text × Nat))
    (keys : List Text) (distinct : keys.Nodup) (counting : Counting s keys) :
    ∃ taken rest, keys = taken ++ rest ∧
      takeRows bytesOver rowsOver freed s out keys =
        (without s taken, out ++ taken.map fun key => (key, rowSize s key)) ∧
      (rest = [] ∨ (bytesOver ≤ freed + freedBy s taken ∧ rowsOver ≤ out.length + taken.length)) ∧
      ∀ front last, taken = front ++ [last] →
        ¬ (bytesOver ≤ freed + freedBy s front ∧ rowsOver ≤ out.length + front.length) := by
  induction keys generalizing freed s out with
  | nil =>
    refine ⟨[], [], rfl, ?_, .inl rfl, ?_⟩
    · rw [takeRows, List.map_nil, List.append_nil]
      rfl
    · intro front last nothing
      exact absurd nothing.symm (List.append_ne_nil_of_right_ne_nil _ (List.cons_ne_nil _ _))
  | cons key keys ih =>
    obtain ⟨other, later⟩ := List.nodup_cons.mp distinct
    obtain ⟨m, found, -⟩ := counting key List.mem_cons_self
    by_cases covered : bytesOver ≤ freed ∧ rowsOver ≤ out.length
    · refine ⟨[], key :: keys, rfl, ?_, .inr covered, ?_⟩
      · rw [takeRows, if_pos covered, List.map_nil, List.append_nil]
        rfl
      · intro front last nothing
        exact absurd nothing.symm (List.append_ne_nil_of_right_ne_nil _ (List.cons_ne_nil _ _))
    · obtain ⟨taken, rest, whole, result, enough, least⟩ :=
        ih (freed + m.sizeBytes) (removeRow s key m) (out ++ [(key, m.sizeBytes)]) later
          (counting.tail s key m keys other)
      have apart : ∀ front : List Text, (∀ k ∈ front, k ∈ taken) → key ∉ front := by
        intro front inside member
        apply other
        rw [whole]
        exact List.mem_append_left _ (inside key member)
      have sum (front : List Text) (inside : ∀ k ∈ front, k ∈ taken) :
          freed + m.sizeBytes + freedBy (removeRow s key m) front = freed + freedBy s (key :: front) := by
        rw [freedBy_removeRow s key m front (apart front inside)]
        simp only [freedBy, List.map_cons, List.sum_cons, rowSize_found s key m found]
        omega
      have pairs : (taken.map fun k => (k, rowSize (removeRow s key m) k)) = taken.map fun k => (k, rowSize s k) := by
        apply List.map_congr_left
        intro k member
        have differs : k ≠ key := fun same => apart taken (fun _ inside => inside) (same ▸ member)
        rw [rowSize_removeRow s key k m differs]
      refine ⟨key :: taken, rest, by rw [whole]; rfl, ?_, ?_, ?_⟩
      · rw [takeRows, if_neg covered, found]
        simp only [result, pairs, without, found, List.map_cons, rowSize_found s key m found,
          List.append_assoc, List.singleton_append]
      · rw [sum taken fun _ inside => inside] at enough
        simp only [List.length_append, List.length_cons, List.length_nil] at enough ⊢
        exact enough.imp_right fun good => ⟨good.1, by omega⟩
      · intro front last same
        cases front with
        | nil => exact fun good => covered ⟨good.1, good.2⟩
        | cons first front =>
          obtain ⟨rfl, tail⟩ := List.cons.inj same
          have short := least front last tail
          rw [sum front fun k inside => by rw [tail]; exact List.mem_append_left _ inside] at short
          simp only [List.length_append, List.length_cons, List.length_nil] at short ⊢
          exact fun good => short ⟨good.1, by omega⟩

/-! The order of the candidates. -/

/-- The removable keys, each once, the ones untouched for longest first. -/
structure OldestFirst (config : Config) (spared : List Text) (s : CacheState) (order : List Text) : Prop where
  once : order.Nodup
  removable : ∀ key, key ∈ order ↔ ∃ m, s.entries.lookup key = some m ∧ removable spared key m = true
  ordered : order.Pairwise fun a b => ∀ m n, s.entries.lookup a = some m → s.entries.lookup b = some n →
    m.eligibleAt config.inactiveTtlSecs ≤ n.eligibleAt config.inactiveTtlSecs

theorem mem_entries_iff (s : CacheState) (key : Text) (m : EntryMeta) :
    (⟨key, m⟩ : Sigma fun _ : Text => EntryMeta) ∈ s.entries.entries ↔ s.entries.lookup key = some m :=
  (AList.mem_lookup_iff (s := s.entries)).symm.trans Option.mem_def

theorem oldestFirst_spec (config : Config) (spared : List Text) (s : CacheState) :
    OldestFirst config spared s (oldestFirst s config (removable spared)) := by
  have sorted := List.perm_insertionSort (fun a b : Nat × Text => a.1 ≤ b.1)
    ((s.entries.entries.filter fun entry => removable spared entry.1 entry.2).map fun entry =>
      (entry.2.eligibleAt config.inactiveTtlSecs, entry.1))
  have ordered := List.pairwise_insertionSort (fun a b : Nat × Text => a.1 ≤ b.1)
    ((s.entries.entries.filter fun entry => removable spared entry.1 entry.2).map fun entry =>
      (entry.2.eligibleAt config.inactiveTtlSecs, entry.1))
  have names := sorted.map Prod.snd
  rw [List.map_map] at names
  change (oldestFirst s config (removable spared)).Perm
    ((s.entries.entries.filter fun entry => removable spared entry.1 entry.2).map Sigma.fst) at names
  constructor
  · apply names.nodup_iff.mpr
    have distinct : (s.entries.entries.map Sigma.fst).Nodup := s.entries.nodupKeys
    exact distinct.sublist (List.filter_sublist.map _)
  · intro key
    rw [names.mem_iff, List.mem_map]
    constructor
    · intro found
      obtain ⟨entry, member, rfl⟩ := found
      obtain ⟨inside, good⟩ := List.mem_filter.mp member
      exact ⟨entry.2, (mem_entries_iff s entry.1 entry.2).mp inside, good⟩
    · intro found
      obtain ⟨m, row, good⟩ := found
      exact ⟨⟨key, m⟩, List.mem_filter.mpr ⟨(mem_entries_iff s key m).mpr row, good⟩, rfl⟩
  · apply List.pairwise_map.mpr
    apply ordered.imp_of_mem
    intro a b first second before m n rowA rowB
    have stamp (pair : Nat × Text) (row : EntryMeta) (found : s.entries.lookup pair.2 = some row)
        (member : pair ∈ (s.entries.entries.filter fun entry => removable spared entry.1 entry.2).map fun entry =>
          (entry.2.eligibleAt config.inactiveTtlSecs, entry.1)) :
        pair.1 = row.eligibleAt config.inactiveTtlSecs := by
      obtain ⟨entry, inside, rfl⟩ := List.mem_map.mp member
      have own := (mem_entries_iff s entry.1 entry.2).mp (List.mem_filter.mp inside).1
      rw [Option.some.inj (found.symm.trans own)]
    rw [← stamp a m rowA (sorted.mem_iff.mp first), ← stamp b n rowB (sorted.mem_iff.mp second)]
    exact before

/-! The sweep. -/

/-- What a sweep of the budgets does, seen from outside. -/
structure Swept (config : Config) (spared : List Text) (before after : CacheState)
    (victims : List (Text × Nat)) : Prop where
  settled : WithinBudgets config after ∨
    ∀ key m, after.entries.lookup key = some m → removable spared key m = false
  oldest : ∃ order, OldestFirst config spared before order ∧ victims.map Prod.fst <+: order
  sizes : ∀ victim ∈ victims, ∃ m, before.entries.lookup victim.1 = some m ∧
    removable spared victim.1 m = true ∧ victim.2 = m.sizeBytes
  minimal : ∀ front last, victims = front ++ [last] →
    ¬ WithinBudgets config (without before (front.map Prod.fst))
  others : ∀ key, after.entries.lookup key =
    if key ∈ victims.map Prod.fst then none else before.entries.lookup key
  balanced : Balanced after

/-- Both overshoots are covered exactly when the budgets hold without the keys. -/
theorem covered_iff (config : Config) (s : CacheState) (keys : List Text) (balanced : Balanced s)
    (distinct : keys.Nodup) (counting : Counting s keys) :
    (residentBytes s - config.maxSizeBytes ≤ freedBy s keys ∧
      (if 0 < config.maxEntries ∧ config.maxEntries < s.entries.entries.length then
        s.entries.entries.length - config.maxEntries else 0) ≤ keys.length) ↔
      WithinBudgets config (without s keys) := by
  have resident := residentBytes_eq s balanced
  obtain ⟨bytes, rows⟩ := without_counts s keys distinct counting
  have count : entryCount s = s.entries.entries.length := rfl
  constructor
  · intro covered
    obtain ⟨first, second⟩ := covered
    constructor
    · omega
    · split_ifs at second with exceeds <;> omega
  · intro within
    have first := within.bytes
    have second := within.rows
    constructor
    · omega
    · split_ifs with exceeds <;> omega

theorem counting_of_order (config : Config) (spared : List Text) (s : CacheState) (order taken rest : List Text)
    (oldest : OldestFirst config spared s order) (whole : order = taken ++ rest) : Counting s taken := by
  intro key member
  have listed : key ∈ order := by
    rw [whole]
    exact List.mem_append_left _ member
  obtain ⟨m, found, good⟩ := (oldest.removable key).mp listed
  simp only [removable, Bool.and_eq_true, Bool.not_eq_true'] at good
  exact ⟨m, found, good.1.2⟩

/-- The shortest prefix of the order after which the budgets hold, or all of it. -/
theorem swept_of_prefix (config : Config) (spared : List Text) (s : CacheState) (order taken rest : List Text)
    (oldest : OldestFirst config spared s order) (whole : order = taken ++ rest)
    (enough : rest = [] ∨ WithinBudgets config (without s taken))
    (least : ∀ front last, taken = front ++ [last] → ¬ WithinBudgets config (without s front))
    (kept : Balanced (without s taken)) :
    Swept config spared s (without s taken) (taken.map fun key => (key, rowSize s key)) := by
  have names : (taken.map fun key => (key, rowSize s key)).map Prod.fst = taken := by
    rw [List.map_map]
    exact List.map_id taken
  constructor
  · cases enough with
    | inl nothing =>
      right
      intro key m found
      rw [lookup_without] at found
      by_cases inside : key ∈ taken
      · rw [if_pos inside] at found
        cases found
      · rw [if_neg inside] at found
        rw [nothing, List.append_nil] at whole
        rw [← whole, oldest.removable] at inside
        exact Bool.eq_false_iff.mpr fun good => inside ⟨m, found, good⟩
    | inr within => exact .inl within
  · refine ⟨order, oldest, ?_⟩
    rw [names, whole]
    exact List.prefix_append _ _
  · intro victim member
    obtain ⟨key, inside, rfl⟩ := List.mem_map.mp member
    have listed : key ∈ order := by
      rw [whole]
      exact List.mem_append_left _ inside
    obtain ⟨m, found, good⟩ := (oldest.removable key).mp listed
    exact ⟨m, found, good, rowSize_found s key m found⟩
  · intro front last same
    have mapped := congrArg (List.map Prod.fst) same
    rw [List.map_append] at mapped
    exact least _ _ (names.symm.trans mapped)
  · intro key
    rw [names]
    exact lookup_without s taken key
  · exact kept

/-- A sweep stops as soon as both budgets hold, takes the oldest removable rows one by
one until then, and keeps the total in step. -/
theorem evictPick_swept (config : Config) (spared : List Text) (s : CacheState) (balanced : Balanced s) :
    Swept config spared s (evictPick s config spared).1 (evictPick s config spared).2 := by
  have kept := balanced_evictPick s config spared balanced
  have oldest := oldestFirst_spec config spared s
  by_cases within : ¬ config.maxSizeBytes < residentBytes s ∧
      ¬ (0 < config.maxEntries ∧ config.maxEntries < s.entries.entries.length)
  · have idle : evictPick s config spared = (s, []) := by
      rw [evictPick]
      exact if_pos within
    rw [idle] at kept ⊢
    have fits : WithinBudgets config s := by
      have resident := residentBytes_eq s balanced
      have count : entryCount s = s.entries.entries.length := rfl
      constructor <;> omega
    apply swept_of_prefix config spared s _ [] _ oldest (List.nil_append _).symm (.inr fits) _ kept
    intro front last nothing
    exact absurd nothing.symm (List.append_ne_nil_of_right_ne_nil _ (List.cons_ne_nil _ _))
  · have counting := counting_of_order config spared s _ _ _ oldest (List.append_nil _).symm
    obtain ⟨taken, rest, whole, result, enough, least⟩ :=
      takeRows_spec (residentBytes s - config.maxSizeBytes)
        (if 0 < config.maxEntries ∧ config.maxEntries < s.entries.entries.length then
          s.entries.entries.length - config.maxEntries else 0) 0 s [] _ oldest.once counting
    have swept : evictPick s config spared = (without s taken, taken.map fun key => (key, rowSize s key)) := by
      rw [evictPick, ← List.nil_append (taken.map _), ← result]
      exact if_neg within
    have distinct := oldest.once
    rw [whole] at distinct
    rw [swept] at kept ⊢
    simp only [Nat.zero_add, List.length_nil] at enough least
    apply swept_of_prefix config spared s _ taken rest oldest whole _ _ kept
    · exact enough.imp_right (covered_iff config s taken balanced (List.nodup_append.mp distinct).1
        (counting_of_order config spared s _ _ _ oldest whole)).mp
    · intro front last same
      rw [same, List.append_assoc] at whole distinct
      exact fun fits => least front last same ((covered_iff config s front balanced
        (List.nodup_append.mp distinct).1 (counting_of_order config spared s _ _ _ oldest whole)).mpr fits)

def filled (size now : Nat) : EntryMeta :=
  (readInstall ⟨∅, 0⟩ ['k'] ['p'] ⟨size, none, none, none⟩ now false).entry

/-- Thirty bytes over a limit of a hundred. -/
def crowded : CacheState :=
  ⟨((∅ : Table Text EntryMeta).insert ['a'] (filled 70 2)).insert ['b'] (filled 60 1), 130⟩

theorem crowded_swept : (evictPick crowded small []).2 = [(['b'], 60)] ∧
    Swept small [] crowded (evictPick crowded small []).1 (evictPick crowded small []).2 :=
  ⟨by decide, evictPick_swept small [] crowded rfl⟩

end OriginCache.Cache.Victims
