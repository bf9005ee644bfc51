import RowStore.Database

/-!
# Rows of a table

Inserting a row puts it into the first page that has room, or else into a new page at the end of
the file. Deleting one takes it out of the first page that holds the same row. Both look at each
page before they ask to write it.
-/

namespace RowStore

/-- The row as an operation left it, and the page that it changed. -/
structure Change where
  row : Row
  handle : Handle
  deriving DecidableEq

namespace Database

variable {σ : Type} (locking : LockManager σ)

/-- Keep a change to a page that was fetched for writing. -/
def keepPage (txn : TxnId) (frame : Frame) (p : Page) : Action (Database σ) Unit :=
  onCache (.update fun c => c.modify frame.handle fun _ => p.markDirty (some txn))

/-- Insert into one page; `none` if it turns out to be full. -/
def insertInto (txn : TxnId) (page : PageId) (row : Row) :
    Action (Database σ) (Option Change) := do
  let frame ← fetch locking txn page .readWrite []
  match frame.page.insert row with
  | .ok (p, row) =>
    keepPage txn frame p
    return some ⟨row, frame.handle⟩
  | .error (.pageFull _) => return none
  | .error e => .fail e

/-- Insert into the first page that has room, among those at the given positions. -/
def insertAmong (file : TableFile) (txn : TxnId) (row : Row) :
    List Nat → Action (Database σ) (Option Change)
  | [] => return none
  | n :: ns => do
    let frame ← fetch locking txn (file.pageAt n) .readOnly []
    if frame.page.emptySlots = 0 then insertAmong file txn row ns
    else
      match ← insertInto locking txn (file.pageAt n) row with
      | some change => return some change
      | none => insertAmong file txn row ns

/-- The positions of the pages that a file has now. -/
def positions (file : TableFile) : Action (Database σ) (List Nat) :=
  .ask fun db => List.range (file.pageCount db.volume)

/-- Append an empty page to a file. -/
def allocate (file : TableFile) : Action (Database σ) PageId := onVolume (.step file.allocate)

/-- Try every page of the file, then a new one. -/
def insertRound (file : TableFile) (txn : TxnId) (row : Row) :
    Action (Database σ) (Option Change) := do
  match ← insertAmong locking file txn row (← positions file) with
  | some change => return some change
  | none => insertInto locking txn (← allocate file) row

/-- Repeat rounds until the row is stored. -/
def insertRounds (file : TableFile) (txn : TxnId) (row : Row) : Nat → Action (Database σ) Change
  | 0 => .fail .stalled
  | rounds + 1 => do
    match ← insertRound locking file txn row with
    | some change => return change
    | none => insertRounds file txn row rounds

/-- The rounds that an insertion may take. A round fails to store the row only if the page that it
appends has the number of a full page that is resident, or that the table is registered with in
pages of another size. As each round appends a page of its own, one round more than there are such
pages is enough, unless the rounds would go on for ever. -/
def roundLimit (file : TableFile) (db : Database σ) : Nat :=
  let registered := match db.catalog.registration file.id with
    | .ok r => r.file.pageCount db.volume + 1
    | .error _ => 0
  db.cache.size + registered + 1

/-- Insert a row into the table stored in a file. -/
def insertRow (file : TableFile) (txn : TxnId) (row : Row) : Action (Database σ) Change := do
  if row.schema.types ≠ file.schema.types then .fail .schemaMismatch
  else insertRounds locking file txn row (← .ask (roundLimit file))

/-- Delete from the first page that holds the row, among those at the given positions. -/
def deleteAmong (file : TableFile) (txn : TxnId) (row : Row) :
    List Nat → Action (Database σ) Change
  | [] => .fail .rowNotFound
  | n :: ns => do
    let seen ← fetch locking txn (file.pageAt n) .readOnly []
    if seen.page.rows.any (fun r => r.Same row) then
      let frame ← fetch locking txn (file.pageAt n) .readWrite []
      match frame.page.delete row with
      | .ok (p, row) =>
        keepPage txn frame p
        return ⟨row, frame.handle⟩
      | .error .rowNotFound => deleteAmong file txn row ns
      | .error e => .fail e
    else deleteAmong file txn row ns

/-- Delete a row from the table stored in a file. -/
def deleteRow (file : TableFile) (txn : TxnId) (row : Row) : Action (Database σ) Change := do
  deleteAmong locking file txn row (← positions file)

/-- Insert a row into the table of that number. -/
def insert (txn : TxnId) (table : TableId) (row : Row) : Action (Database σ) Change := do
  insertRow locking (← lookup table).file txn row

/-- Delete a row from the table in which it has its place. -/
def delete (txn : TxnId) (row : Row) : Action (Database σ) Change :=
  match row.place with
  | none => .fail .rowNotFound
  | some spot => do deleteRow locking (← lookup spot.page.table).file txn row

end Database

end RowStore
