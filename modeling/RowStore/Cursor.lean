import RowStore.Database

/-!
# Cursors

A cursor yields the rows of a table page by page. It copies the rows out of each page it comes to
and passes over pages without rows. A page that cannot be fetched leaves the cursor in front of it.
-/

namespace RowStore

structure Cursor where
  file : TableFile
  txn : TxnId
  /-- The position of the first page that was not read yet. -/
  nextPage : Nat
  /-- The rows of the last page read that were not yielded yet. -/
  buffered : List Row
  closed : Bool
  deriving DecidableEq

namespace Cursor

variable {σ : Type} (locking : LockManager σ)

def new (file : TableFile) (txn : TxnId) : Cursor := ⟨file, txn, 0, [], false⟩

def reopen (c : Cursor) : Cursor := { c with nextPage := 0, buffered := [], closed := false }

def close (c : Cursor) : Cursor := { c with buffered := [], closed := true }

def rewind (c : Cursor) : Cursor := c.close.reopen

/-- The rows of the page at a position, fetched for reading. -/
def pageRows (file : TableFile) (txn : TxnId) (n : Nat) : Action (Database σ) (List Row) := do
  return (← Database.fetch locking txn (file.pageAt n) .readOnly []).page.rows

/-- The positions of the pages that the cursor has not read. -/
def pagesLeft (c : Cursor) (v : Volume) : List Nat :=
  List.range' c.nextPage (c.file.pageCount v - c.nextPage)

/-- Read the page at a position into the buffer. -/
def turn (n : Nat) : Action (Cursor × Database σ) Unit :=
  ⟨fun (c, db) =>
    match (pageRows locking c.file c.txn n).run db with
    | (.ok rows, db) => (.ok (), { c with nextPage := n + 1, buffered := rows }, db)
    | (.error e, db) => (.error e, c, db)⟩

/-- Read on until there are rows to yield, through pages at the given positions. -/
def advance : List Nat → Action (Cursor × Database σ) Bool
  | [] => .ask fun s => !s.1.buffered.isEmpty
  | n :: ns => do
    if ← .ask fun s => s.1.buffered.isEmpty then
      turn locking n
      advance ns
    else return true

/-- Whether there is another row. -/
def hasNext : Action (Cursor × Database σ) Bool := do
  if ← .ask fun s => s.1.closed then return false
  else advance locking (← .ask fun s => s.1.pagesLeft s.2.volume)

/-- Yield the first row of the buffer. -/
def takeBuffered : Action (Cursor × Database σ) Row :=
  ⟨fun (c, db) =>
    match c.buffered with
    | r :: rs => (.ok r, { c with buffered := rs }, db)
    | [] => (.error .endOfRows, c, db)⟩

def nextRow : Action (Cursor × Database σ) Row := do
  if ← hasNext locking then takeBuffered else .fail .endOfRows

/-- The next row, or `none` at the end. A page that cannot be fetched closes the cursor. -/
def next? : Action (Cursor × Database σ) (Option Row) :=
  ⟨fun s =>
    match (hasNext locking).run s with
    | (.ok true, s) => ((some <$> nextRow locking : Action _ _)).run s
    | (.ok false, s) => (.ok none, s)
    | (.error e, c, db) => (.error e, c.close, db)⟩

/-- What a scan yields: rows, and the failure that ended it, if one did. -/
structure Yield where
  rows : List Row
  failure : Option StorageError
  deriving DecidableEq

/-- The rows of the pages at the given positions, up to the first failure. -/
def drainPages (file : TableFile) (txn : TxnId) :
    List Nat → Database σ → Yield × Database σ
  | [], db => (⟨[], none⟩, db)
  | n :: ns, db =>
    match (pageRows locking file txn n).run db with
    | (.error e, db) => (⟨[], some e⟩, db)
    | (.ok rows, db) =>
      let (rest, db) := drainPages file txn ns db
      (⟨rows ++ rest.rows, rest.failure⟩, db)

/-- Everything that a cursor still yields. -/
def drain (c : Cursor) (db : Database σ) : Yield × Database σ :=
  if c.closed then (⟨[], none⟩, db)
  else
    let (rest, db) := drainPages locking c.file c.txn (c.pagesLeft db.volume) db
    (⟨c.buffered ++ rest.rows, rest.failure⟩, db)

end Cursor

/-- All rows of a table in the order of their places, up to the first failure. -/
def Database.scan {σ : Type} (locking : LockManager σ) (file : TableFile) (txn : TxnId)
    (db : Database σ) : Cursor.Yield × Database σ :=
  (Cursor.new file txn).drain locking db

end RowStore
