import RowStore.Error
import RowStore.Keyed

/-!
# Volumes

The folders and files that tables are stored in. A path is the list of names from the root down;
a file is opened by a name relative to a folder, in which empty parts and `.` stand for the folder
itself and `..` for the one above it. The path that a file ends up under is the same whatever name
it was opened by.
-/

namespace RowStore

abbrev Path := List String

structure Volume where
  folders : List Path
  files : Keyed Path Bytes
  deriving DecidableEq

namespace Path

def render (p : Path) : String := String.join (p.map ("/" ++ ·))

/-- The longest name, in bytes, that a folder can list. -/
def maxName : Nat := 255

/-- The longest name, in bytes, that a file can be opened by, its end mark included. -/
def maxPath : Nat := 4096

/-- The parts of a name between its slashes. -/
def parts (name : String) : List String := go [] name.toList
where
  go (read : List Char) : List Char → List String
    | [] => [String.ofList read.reverse]
    | c :: rest =>
      if c = '/' then String.ofList read.reverse :: go [] rest else go (c :: read) rest

end Path

namespace Volume

/-- The folder a part leads to. -/
def enter? (v : Volume) (here : Path) (part : String) : Option Path :=
  if part = "" ∨ part = "." then some here
  else if part = ".." then some here.dropLast
  else
    let there := here ++ [part]
    if there ∈ v.folders then some there else none

/-- The file that the parts lead to from a folder, which need not exist yet. -/
def locate? (v : Volume) (here : Path) : List String → Option Path
  | [] => none
  | [part] =>
    if part = "" ∨ part = "." ∨ part = ".." ∨ Path.maxName < (Utf8.encode part).length then none
    else if here ++ [part] ∈ v.folders then none
    else some (here ++ [part])
  | part :: rest => (v.enter? here part).bind fun there => v.locate? there rest

/-- The contents of a file; one that does not exist has none. -/
def read (v : Volume) (path : Path) : Bytes := (v.files.get? path).getD []

def length (v : Volume) (path : Path) : Nat := (v.read path).length

def write (v : Volume) (path : Path) (bytes : Bytes) : Volume :=
  { v with files := v.files.put path bytes }

/-- Find or create the file of that name. -/
def openFile (v : Volume) (folder : Path) (name : String) : Except StorageError (Path × Volume) :=
  let full := folder.render ++ "/" ++ name
  if '\x00' ∈ name.toList then .error (.io .nulInName)
  else if Path.maxPath ≤ (Utf8.encode full).length then .error (.io .refused)
  else
    match v.locate? folder (Path.parts name) with
    | none => .error (.io .refused)
    | some path => .ok (path, if v.files.contains path then v else v.write path [])

/-- Positions in a file are signed 64-bit numbers, so none reaches 2^63. -/
def positionLimit : Nat := 0x8000000000000000

/-- The bytes of a file in a window that must lie inside it. A window that no file can have is
refused, any other is too long for the file. -/
def readAt (v : Volume) (path : Path) (start count : Nat) : Except StorageError Bytes :=
  match Bytes.window? (v.read path) start count with
  | some bytes => .ok bytes
  | none => .error (.io (if start + count < positionLimit then .shortRead else .refused))

/-- Write into a file. What lies past its end is reached over zeros. -/
def writeAt (v : Volume) (path : Path) (start : Nat) (bytes : Bytes) : Volume :=
  v.write path ((v.read path).overwrite start bytes)

/-- Cut or extend a file. -/
def resize (v : Volume) (path : Path) (length : Nat) : Volume :=
  v.write path (Bytes.fit length (v.read path))

end Volume

end RowStore
