import RowStore.Checksum
import RowStore.Page
import RowStore.Volume

/-!
# Table files

A table is stored in one file as pages of one size, page `n` at offset `n` times that size. The
number of a table is the checksum of its file's path, so every name of the file leads to the same
table. Page numbers have 32 bits; a position past them wraps around.
-/

namespace RowStore

structure TableFile where
  path : Path
  id : TableId
  schema : Schema
  pageSize : Nat
  deriving DecidableEq

namespace TableFile

/-- The number of the table in the file of that path. Nothing relies on different paths having
different numbers. -/
def idOf (path : Path) : TableId := Crc32.checksum (Utf8.encode path.render)

/-- Open or create the file of that name. -/
def openIn (folder : Path) (name : String) (schema : Schema) (pageSize : Nat) (v : Volume) :
    Except StorageError TableFile × Volume :=
  match Layout.ofSchema schema pageSize with
  | .error e => (.error e, v)
  | .ok _ =>
    match v.openFile folder name with
    | .error e => (.error e, v)
    | .ok (path, v) =>
      let length := v.length path
      if length % pageSize ≠ 0 then (.error (.decode (.unevenFile length pageSize)), v)
      else (.ok ⟨path, idOf path, schema, pageSize⟩, v)

def pageCount (f : TableFile) (v : Volume) : Nat := v.length f.path / f.pageSize

/-- The page at a position of the file. -/
def pageAt (f : TableFile) (position : Nat) : PageId := ⟨f.id, position.toUInt32⟩

def checkOwner (f : TableFile) (page : PageId) : Except StorageError Unit :=
  if page.table = f.id then .ok () else .error (.invalidOperation (.foreignPage page f.id))

def readPage (f : TableFile) (v : Volume) (page : PageId) : Except StorageError Page := do
  f.checkOwner page
  let image ← v.readAt f.path (page.offset f.pageSize) f.pageSize
  Page.decode page f.schema f.pageSize image

def writePage (f : TableFile) (v : Volume) (p : Page) : Except StorageError Volume := do
  f.checkOwner p.id
  return v.writeAt f.path (p.id.offset f.pageSize) p.encode

/-- Append a page of zeros. -/
def allocate (f : TableFile) (v : Volume) : PageId × Volume :=
  let page := f.pageAt (f.pageCount v)
  (page, v.writeAt f.path (page.offset f.pageSize) (Bytes.zeros f.pageSize))

end TableFile

end RowStore
