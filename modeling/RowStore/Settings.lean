import RowStore.Error
import RowStore.Json.Reader

/-!
# Settings

The page size of new tables, the number of pages the cache holds, and whether writes reach the
disk at once. Settings are read from a JSON record in which any key may be missing, or from a list
of the first few of them in order; what is missing takes its default. As for the columns of a
schema, what is read is spelled out where a library would derive it from the fields.
-/

namespace RowStore

structure Settings where
  pageSize : Nat
  cacheCapacity : Nat
  syncOnWrite : Bool
  deriving DecidableEq, Repr

namespace Settings

def default : Settings := ⟨4096, 50, false⟩

def withPageSize (s : Settings) (n : Nat) : Settings := { s with pageSize := n }

def withCacheCapacity (s : Settings) (n : Nat) : Settings := { s with cacheCapacity := n }

def withSyncOnWrite (s : Settings) (b : Bool) : Settings := { s with syncOnWrite := b }

def validate (s : Settings) : Except StorageError Unit :=
  if s.pageSize = 0 then .error (.invalidSettings .pageSize)
  else if s.cacheCapacity = 0 then .error (.invalidSettings .cacheCapacity)
  else .ok ()

def toJson (s : Settings) : Json :=
  .record [(some "pageSize", .natural s.pageSize), (some "cacheCapacity", .natural s.cacheCapacity),
    (some "syncOnWrite", .bool s.syncOnWrite)]

/-- The size that is given, or else the default. -/
def sizeOr (d : Nat) : Option Json → Option Nat
  | none => some d
  | some j => j.size?

def flagOr (d : Bool) : Option Json → Option Bool
  | none => some d
  | some (.bool b) => some b
  | some _ => none

def ofParts? (pageSize cacheCapacity syncOnWrite : Option Json) : Option Settings := do
  return ⟨← sizeOr default.pageSize pageSize, ← sizeOr default.cacheCapacity cacheCapacity,
    ← flagOr default.syncOnWrite syncOnWrite⟩

def ofJson? : Json → Option Settings
  | .list items =>
    if items.length ≤ 3 then ofParts? items[0]? items[1]? items[2]? else none
  | .record members => do
    guard (Json.namesReadable members)
    ofParts? (← Json.member? "pageSize" members) (← Json.member? "cacheCapacity" members)
      (← Json.member? "syncOnWrite" members)
  | _ => none

def parse (text : String) : Except StorageError Settings :=
  match (Json.parse? text).bind ofJson? with
  | none => .error (.invalidSettings .malformed)
  | some s => do
    s.validate
    return s

end Settings

end RowStore
