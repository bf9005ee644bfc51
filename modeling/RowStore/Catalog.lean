import RowStore.TableFile

/-!
# The catalog

The registered tables, by number and by name. The two maps are inverse to each other: registering
a table first removes whatever had its name and whatever had its number.
-/

namespace RowStore

/-- Failures that the pages of a registered table are made to meet on their way from and to the
file. They stay as they are until the table is registered again: a failure that comes and goes is a
registration for each change. -/
structure InjectedFaults where
  read : Bool
  write : Bool
  deriving DecidableEq, Repr

def InjectedFaults.none : InjectedFaults := ⟨false, false⟩

structure Registration where
  file : TableFile
  name : String
  primaryKey : String
  faults : InjectedFaults
  deriving DecidableEq

namespace Registration

def readPage (r : Registration) (v : Volume) (page : PageId) : Except StorageError Page :=
  if r.faults.read then .error (.io (.injected false)) else r.file.readPage v page

def writePage (r : Registration) (v : Volume) (p : Page) : Except StorageError Volume :=
  if r.faults.write then .error (.io (.injected true)) else r.file.writePage v p

end Registration

structure Catalog where
  byId : Keyed TableId Registration
  byName : Keyed String TableId
  deriving DecidableEq

namespace Catalog

def empty : Catalog := ⟨Keyed.empty, Keyed.empty⟩

/-- Forget the table of that name. -/
def removeName (c : Catalog) (name : String) : Catalog :=
  match c.byName.get? name with
  | some id => ⟨c.byId.erase id, c.byName.erase name⟩
  | none => c

/-- Forget the table of that number. -/
def removeId (c : Catalog) (id : TableId) : Catalog :=
  match c.byId.get? id with
  | some r => ⟨c.byId.erase id, c.byName.erase r.name⟩
  | none => c

def add (c : Catalog) (r : Registration) : Catalog :=
  let c := (c.removeName r.name).removeId r.file.id
  ⟨c.byId.put r.file.id r, c.byName.put r.name r.file.id⟩

def idOf (c : Catalog) (name : String) : Except StorageError TableId :=
  match c.byName.get? name with
  | some id => .ok id
  | none => .error (.tableNotFound (.name name))

def registration (c : Catalog) (id : TableId) : Except StorageError Registration :=
  match c.byId.get? id with
  | some r => .ok r
  | none => .error (.tableNotFound (.number id))

def file (c : Catalog) (id : TableId) : Except StorageError TableFile :=
  return (← c.registration id).file

/-- The table of that name. -/
def table (c : Catalog) (name : String) : Except StorageError TableFile := do
  c.file (← c.idOf name)

def ids (c : Catalog) : List TableId := c.byId.keys

def size (c : Catalog) : Nat := c.byId.size

end Catalog

end RowStore
