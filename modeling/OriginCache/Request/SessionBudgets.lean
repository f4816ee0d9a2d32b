import Mathlib.Data.List.Sort
import Mathlib.Data.UInt
import OriginCache.Foundation.Buckets
import OriginCache.Foundation.Tables
import OriginCache.Request.Sigv4

/-! What a session may spend: requests in a second and bytes in a minute, counted in
windows of one bucket a second that age when they are looked at. -/

namespace OriginCache.Request.SessionBudgets
open Foundation.Buckets Foundation.Tables Sigv4
open Cache.SegName (Text)

/-- Counts are `u64` values, which wrap. -/
structure Window where
  buckets : List (Int × UInt64)
  windowSecs : Int
deriving DecidableEq, Repr

def Window.new (windowSecs : Int) : Window := ⟨[], windowSecs⟩

def Window.prune (window : Window) (now : Int) : Window :=
  { window with buckets := window.buckets.dropWhile fun bucket => bucket.1 ≤ now - window.windowSecs }

def Window.used (window : Window) (now : Int) : UInt64 × Window :=
  let window := window.prune now
  (total window.buckets, window)

def Window.add (window : Window) (now : Int) (amount : UInt64) : Window :=
  let window := window.prune now
  { window with buckets := push window.buckets now amount }

structure SessionBudget where
  requests : Window
  bytes : Window
  lastSeen : Int
deriving DecidableEq, Repr

def SessionBudget.new (now : Int) : SessionBudget := ⟨.new 1, .new 60, now⟩

abbrev SessionTables := Table Text SessionBudget

def sessionTableCap : Nat := 4096
def sessionIdleSecs : Int := 300

def retain (table : SessionTables) (test : SessionBudget → Bool) : SessionTables :=
  ⟨table.entries.filter fun entry => test entry.2,
    table.nodupKeys.sublist List.filter_sublist⟩

/-- By last contact, then by key. -/
def TouchOrder (a b : Int × Text) : Prop := a.1 < b.1 ∨ (a.1 = b.1 ∧ Canonical.NotAfter a.2 b.2)

instance : DecidableRel TouchOrder := fun _ _ => inferInstanceAs (Decidable (_ ∨ _))

/-- Room for one more session: the idle ones go, then the longest untouched. -/
def makeRoom (table : SessionTables) (now : Int) : SessionTables :=
  if table.keys.length < sessionTableCap then table
  else
    let kept := retain table fun session => now - session.lastSeen ≤ sessionIdleSecs
    if kept.keys.length < sessionTableCap then kept
    else
      let order := (kept.entries.map fun entry => (entry.2.lastSeen, entry.1)).insertionSort TouchOrder
      (order.take (kept.keys.length - sessionTableCap + 1)).foldl (fun table old => table.erase old.2) kept

/-- The request half of the budget. A refused request leaves its contact behind. -/
def admitSession (table : SessionTables) (key : Text) (now : Int) (rps bytesPerMin : Nat) :
    Except Reason Unit × SessionTables :=
  let table := makeRoom table now
  let entry := { (table.lookup key).getD (SessionBudget.new now) with lastSeen := now }
  let (requested, requests) := entry.requests.used now
  let entry := { entry with requests := requests }
  if rps < (requested + 1).toNat then (.error .sessionRateExceeded, table.insert key entry)
  else
    let (spent, bytes) := entry.bytes.used now
    let entry := { entry with bytes := bytes }
    if bytesPerMin ≤ spent.toNat then (.error .sessionBytesExceeded, table.insert key entry)
    else (.ok (), table.insert key { entry with requests := entry.requests.add now 1 })

/-- The byte half, once the body has moved. -/
def observeSession (table : SessionTables) (key : Text) (now : Int) (bytes : UInt64) : SessionTables :=
  if bytes = 0 then table
  else
    match table.lookup key with
    | none => table
    | some entry => table.insert key { entry with lastSeen := now, bytes := entry.bytes.add now bytes }

end OriginCache.Request.SessionBudgets
