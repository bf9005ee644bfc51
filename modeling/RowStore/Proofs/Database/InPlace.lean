import RowStore.Database.Rows

/-!
# Rows that are changed in place

The caller's row is a variable here. The page that takes the row in writes its place into the
variable, and the page that gives it up erases the place; nothing else touches it. This comes to
the same as handing the changed row back, so a call that fails leaves the variable as it was.
-/

namespace RowStore

namespace InPlace

variable {σ : Type} (locking : LockManager σ)

/-- Act on the database beside the caller's row. -/
def beside {α : Type} (x : Action (Database σ) α) : Action (Row × Database σ) α :=
  x.within Prod.snd fun db s => (s.1, db)

def insertInto (txn : TxnId) (page : PageId) : Action (Row × Database σ) (Option Handle) := do
  let frame ← beside (Database.fetch locking txn page .readWrite [])
  match frame.page.insert (← .ask Prod.fst) with
  | .ok (p, placed) =>
    .update fun s => (placed, s.2)
    beside (Database.keepPage txn frame p)
    return some frame.handle
  | .error (.pageFull _) => return none
  | .error e => .fail e

def insertAmong (file : TableFile) (txn : TxnId) :
    List Nat → Action (Row × Database σ) (Option Handle)
  | [] => return none
  | n :: ns => do
    let frame ← beside (Database.fetch locking txn (file.pageAt n) .readOnly [])
    if frame.page.emptySlots = 0 then insertAmong file txn ns
    else
      match ← insertInto locking txn (file.pageAt n) with
      | some handle => return some handle
      | none => insertAmong file txn ns

def insertRound (file : TableFile) (txn : TxnId) : Action (Row × Database σ) (Option Handle) := do
  match ← insertAmong locking file txn (← beside (Database.positions file)) with
  | some handle => return some handle
  | none => insertInto locking txn (← beside (Database.allocate file))

def insertRounds (file : TableFile) (txn : TxnId) : Nat → Action (Row × Database σ) Handle
  | 0 => .fail .stalled
  | rounds + 1 => do
    match ← insertRound locking file txn with
    | some handle => return handle
    | none => insertRounds file txn rounds

/-- Insert the caller's row into the table of that number. -/
def insert (txn : TxnId) (table : TableId) : Action (Row × Database σ) Handle := do
  let file := (← beside (Database.lookup table)).file
  if (← .ask Prod.fst).schema.types ≠ file.schema.types then .fail .schemaMismatch
  else insertRounds locking file txn (← beside (.ask (Database.roundLimit file)))

def deleteAmong (file : TableFile) (txn : TxnId) : List Nat → Action (Row × Database σ) Handle
  | [] => .fail .rowNotFound
  | n :: ns => do
    let seen ← beside (Database.fetch locking txn (file.pageAt n) .readOnly [])
    let row ← .ask Prod.fst
    if seen.page.rows.any (fun r => r.Same row) then
      let frame ← beside (Database.fetch locking txn (file.pageAt n) .readWrite [])
      match frame.page.delete row with
      | .ok (p, removed) =>
        .update fun s => (removed, s.2)
        beside (Database.keepPage txn frame p)
        return frame.handle
      | .error .rowNotFound => deleteAmong file txn ns
      | .error e => .fail e
    else deleteAmong file txn ns

/-- Delete the caller's row from the table in which it has its place. -/
def delete (txn : TxnId) : Action (Row × Database σ) Handle := do
  match (← .ask Prod.fst).place with
  | none => .fail .rowNotFound
  | some spot =>
    let file := (← beside (Database.lookup spot.page.table)).file
    deleteAmong locking file txn (← beside (Database.positions file))

/-- The caller's row and the answer, told by an operation that hands the changed row back. -/
def settle (row : Row) : Except StorageError Change × Database σ →
    Except StorageError Handle × Row × Database σ
  | (.ok change, db) => (.ok change.handle, change.row, db)
  | (.error e, db) => (.error e, row, db)

/-- As `settle`, for an operation that may find no room. -/
def settle? (row : Row) : Except StorageError (Option Change) × Database σ →
    Except StorageError (Option Handle) × Row × Database σ
  | (.ok (some change), db) => (.ok (some change.handle), change.row, db)
  | (.ok none, db) => (.ok none, row, db)
  | (.error e, db) => (.error e, row, db)

variable {locking} {txn : TxnId} {page : PageId} {file : TableFile} {row : Row} {db : Database σ}

theorem run_beside_bind {α β : Type} (x : Action (Database σ) α)
    (f : α → Action (Row × Database σ) β) (row : Row) (db : Database σ) :
    (beside x >>= f).run (row, db) =
      match x.run db with
      | (.ok a, mid) => (f a).run (row, mid)
      | (.error e, mid) => (.error e, row, mid) := by
  rw [Action.run_bind, beside, Action.run_within]
  rcases x.run db with ⟨e | a, mid⟩ <;> rfl

theorem run_insertInto : (insertInto locking txn page).run (row, db) =
    settle? row ((Database.insertInto locking txn page row).run db) := by
  rw [insertInto, run_beside_bind, Database.insertInto, Action.run_bind]
  rcases (Database.fetch locking txn page .readWrite []).run db with ⟨e | frame, mid⟩
  · rfl
  · simp only [Action.run_bind, Action.run_ask]
    cases frame.page.insert row with
    | ok result => rfl
    | error e => cases e <;> rfl

theorem run_insertAmong (ns : List Nat) : (insertAmong locking file txn ns).run (row, db) =
    settle? row ((Database.insertAmong locking file txn row ns).run db) := by
  induction ns generalizing db with
  | nil => rfl
  | cons n ns ih =>
    rw [insertAmong, run_beside_bind, Database.insertAmong, Action.run_bind]
    rcases (Database.fetch locking txn (file.pageAt n) .readOnly []).run db with ⟨e | frame, mid⟩
    · rfl
    · dsimp only
      split
      · exact ih
      · rw [Action.run_bind, run_insertInto, Action.run_bind]
        rcases (Database.insertInto locking txn (file.pageAt n) row).run mid with
          ⟨e | _ | change, after⟩
        · rfl
        · exact ih
        · rfl

theorem run_insertRound : (insertRound locking file txn).run (row, db) =
    settle? row ((Database.insertRound locking file txn row).run db) := by
  rw [insertRound, run_beside_bind, Database.insertRound, Action.run_bind, Database.positions,
    Action.run_ask]
  dsimp only
  rw [Action.run_bind, run_insertAmong, Action.run_bind]
  rcases (Database.insertAmong locking file txn row
    (List.range (file.pageCount db.volume))).run db with ⟨e | _ | change, mid⟩
  · rfl
  · dsimp only [settle?]
    rw [run_beside_bind, Action.run_bind]
    rcases (Database.allocate file).run mid with ⟨e | page, grown⟩
    · rfl
    · exact run_insertInto
  · rfl

theorem run_insertRounds (rounds : Nat) : (insertRounds locking file txn rounds).run (row, db) =
    settle row ((Database.insertRounds locking file txn row rounds).run db) := by
  induction rounds generalizing db with
  | zero => rfl
  | succ rounds ih =>
    rw [insertRounds, Action.run_bind, run_insertRound, Database.insertRounds, Action.run_bind]
    rcases (Database.insertRound locking file txn row).run db with ⟨e | _ | change, mid⟩
    · rfl
    · exact ih
    · rfl

theorem run_insert (locking : LockManager σ) (txn : TxnId) (table : TableId) (row : Row)
    (db : Database σ) : (insert locking txn table).run (row, db) =
      settle row ((Database.insert locking txn table row).run db) := by
  rw [insert, run_beside_bind, Database.insert, Action.run_bind]
  rcases (Database.lookup table).run db with ⟨e | r, mid⟩
  · rfl
  · dsimp only
    rw [Action.run_bind, Action.run_ask, Database.insertRow]
    dsimp only
    split
    · rfl
    · rw [run_beside_bind, Action.run_bind, Action.run_ask]
      exact run_insertRounds _

theorem run_deleteAmong (ns : List Nat) : (deleteAmong locking file txn ns).run (row, db) =
    settle row ((Database.deleteAmong locking file txn row ns).run db) := by
  induction ns generalizing db with
  | nil => rfl
  | cons n ns ih =>
    rw [deleteAmong, run_beside_bind, Database.deleteAmong, Action.run_bind]
    rcases (Database.fetch locking txn (file.pageAt n) .readOnly []).run db with ⟨e | seen, mid⟩
    · rfl
    · dsimp only
      rw [Action.run_bind, Action.run_ask]
      dsimp only
      split
      · rw [run_beside_bind, Action.run_bind]
        rcases (Database.fetch locking txn (file.pageAt n) .readWrite []).run mid with
          ⟨e | frame, after⟩
        · rfl
        · dsimp only
          cases frame.page.delete row with
          | ok result => rfl
          | error e =>
            cases e with
            | rowNotFound => exact ih
            | _ => rfl
      · exact ih

theorem run_delete (locking : LockManager σ) (txn : TxnId) (row : Row) (db : Database σ) :
    (delete locking txn).run (row, db) =
      settle row ((Database.delete locking txn row).run db) := by
  rw [delete, Action.run_bind, Action.run_ask, Database.delete]
  dsimp only
  cases row.place with
  | none => rfl
  | some spot =>
    dsimp only
    rw [run_beside_bind, Action.run_bind]
    rcases (Database.lookup spot.page.table).run db with ⟨e | r, mid⟩
    · rfl
    · dsimp only
      rw [run_beside_bind, Database.deleteRow, Action.run_bind, Database.positions,
        Action.run_ask]
      exact run_deleteAmong _

end InPlace

end RowStore
