import OriginCache.Cache.SegName

/-! The metadata row of a cached entry and its two clocks. -/

namespace OriginCache.Cache.Meta
open SegName

/-- What a stat of the upstream reports. -/
structure ObjectMeta where
  sizeBytes : Nat
  etag : Option Text
  lastModified : Option Text
  mimeHint : Option Text
deriving DecidableEq, Repr

/-- A row that holds a negative deadline is a tombstone and has no file. -/
structure EntryMeta where
  version : Nat
  upstreamId : Text
  key : Text
  sizeBytes : Nat
  etag : Option Text
  lastModified : Option Text
  contentType : Option Text
  createdAtMillis : Nat
  lastAccessMillis : Nat
  lastRevalidatedMillis : Option Nat
  negativeUntilMillis : Option Nat
  oversize : Bool
deriving DecidableEq, Repr

def EntryMeta.isNegative (m : EntryMeta) (now : Nat) : Bool := m.negativeUntilMillis.any (now < ·)

def EntryMeta.eligibleAt (m : EntryMeta) (inactiveTtlSecs : Nat) : Nat :=
  m.lastAccessMillis + inactiveTtlSecs * 1000

/-- An age equal to the limit is still fresh. -/
def EntryMeta.revalidateDue (m : EntryMeta) (now revalidateTtlSecs : Nat) : Bool :=
  revalidateTtlSecs * 1000 < now - m.lastRevalidatedMillis.getD m.createdAtMillis

end OriginCache.Cache.Meta
