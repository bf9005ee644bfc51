import RowStore.Proofs.Database.Flush
import RowStore.Proofs.Database.Scan

/-!
# Runs

A run is a sequence of calls, each of which may fail, from a database with an empty cache whose
tables have files of their own. Every database on the way is coherent.
-/

namespace RowStore

instance decidableEqExcept {ε α : Type} [DecidableEq ε] [DecidableEq α] :
    DecidableEq (Except ε α)
  | .ok a, .ok b => decidable_of_iff (a = b) (by simp)
  | .error d, .error e => decidable_of_iff (d = e) (by simp)
  | .ok _, .error _ => isFalse (by simp)
  | .error _, .ok _ => isFalse (by simp)

/-- What a database is asked for. Pages change by inserting and deleting rows only. -/
inductive Call where
  | insert (txn : TxnId) (table : TableId) (row : { row : Row // row.Valid })
  | delete (txn : TxnId) (row : Row)
  | fetch (txn : TxnId) (page : PageId) (access : Access) (pinned : List Handle)
  | release (txn : TxnId) (page : PageId)
  | flushPage (page : PageId)
  | flushAll
  | flushPages (txn : TxnId)
  | discard (page : PageId)
  | complete (txn : TxnId) (commit : Bool)
  | scan (txn : TxnId) (table : TableId)

inductive Answer where
  | done
  | changed (change : Change)
  | fetched (frame : Frame)
  | scanned (yielded : Cursor.Yield)
  deriving DecidableEq

namespace Database

variable {σ : Type}

/-- Scan the table of that number. -/
def scanTable (locking : LockManager σ) (txn : TxnId) (table : TableId) :
    Action (Database σ) Cursor.Yield := do
  let r ← lookup table
  .step (scan locking r.file txn)

def perform (locking : LockManager σ) : Call → Action (Database σ) Answer
  | .insert txn table row => .changed <$> insert locking txn table row.val
  | .delete txn row => .changed <$> delete locking txn row
  | .fetch txn page access pinned => .fetched <$> fetch locking txn page access pinned
  | .release txn page => (fun _ => .done) <$> release locking txn page
  | .flushPage page => (fun _ => .done) <$> flushPage page
  | .flushAll => (fun _ => .done) <$> flushAll
  | .flushPages txn => (fun _ => .done) <$> flushPages txn
  | .discard page => (fun _ => .done) <$> discard page
  | .complete txn commit => (fun _ => .done) <$> complete locking txn commit
  | .scan txn table => .scanned <$> scanTable locking txn table

/-- A database whose tables have files of their own, with an empty cache. -/
structure Fresh (db : Database σ) : Prop where
  tables : db.catalog.Intact db.volume
  cache : ∃ capacity, db.cache = Cache.ofCapacity capacity

variable {locking : LockManager σ} {db db' : Database σ}

theorem Fresh.coherent (h : db.Fresh) : db.Coherent := by
  obtain ⟨capacity, hcache⟩ := h.cache
  refine ⟨h.tables, ?_, ?_, ?_, ?_⟩
  · intro page frame hf
    rw [hcache] at hf
    cases hf
  · rw [hcache]
    exact Keyed.wellKeyed_empty
  · rw [hcache]
    exact Nat.zero_le _
  · rw [hcache]
    rfl

/-- A table with a file of its own may be registered before the first page is fetched. -/
theorem Fresh.addTable {r : Registration} (h : db.Fresh) (hfile : r.file.Intact db.volume)
    (hpath : ∀ (id : TableId) (s : Registration), db.catalog.registration id = .ok s →
      s.file.path ≠ r.file.path) : Fresh ((Database.addTable r).run db).2 :=
  ⟨h.tables.add hfile hpath, h.cache⟩

theorem Coherent.scanTable {txn : TxnId} {table : TableId}
    {result : Except StorageError Cursor.Yield} (h : db.Coherent) (hsmall : db.Small)
    (hrun : (Database.scanTable locking txn table).run db = (result, db')) :
    Quiet db db' ∧ ∀ yielded, result = .ok yielded → yielded.failure = none →
      db.Lists table yielded.rows := by
  rw [Database.scanTable, Action.run_bind, lookup, Action.run_query] at hrun
  cases hr : db.catalog.registration table with
  | error e =>
    rw [hr] at hrun
    obtain ⟨rfl, rfl⟩ := Prod.mk.inj hrun
    exact ⟨.refl h, by simp⟩
  | ok r =>
    rw [hr] at hrun
    obtain rfl := h.tables.id_eq table r hr
    obtain ⟨rfl, rfl⟩ := Prod.mk.inj hrun
    obtain ⟨hq, hlists⟩ := h.scan hsmall hr rfl
    refine ⟨hq, ?_⟩
    intro yielded hy hfail
    obtain rfl := Except.ok.inj hy
    exact hlists hfail

end Database

namespace Call

/-- The pages that a call flushes, in order, if flushing is what it does. -/
def flushes? (cache : Cache) : Call → Option (List PageId)
  | .flushPage page => some [page]
  | .flushAll => some (cache.dirtyPages none)
  | .flushPages txn => some (cache.dirtyPages (some txn))
  | .complete txn true => some (cache.dirtyPages (some txn))
  | _ => none

/-- The pages that a call discards, if discarding is what it does. -/
def discards? (cache : Cache) : Call → Option (List PageId)
  | .discard page => some [page]
  | .complete txn false => some (cache.dirtyPages (some txn))
  | _ => none

end Call

namespace Database

variable {σ : Type} {locking : LockManager σ} {db db' : Database σ} {call : Call}
  {answer : Except StorageError Answer}

/-- What a call comes to. Only insertions that fail may leave a trace, and only flushing may fail
half way. -/
inductive Effect (db db' : Database σ) : Call → Except StorageError Answer → Prop
  | inserted {txn : TxnId} {table : TableId} {row : { row : Row // row.Valid }} {change : Change} :
      Inserted txn table row.val change db db' →
      Effect db db' (.insert txn table row) (.ok (.changed change))
  | fruitless {txn : TxnId} {table : TableId} {row : { row : Row // row.Valid }}
      {e : StorageError} : Fruitless db db' → Effect db db' (.insert txn table row) (.error e)
  | deleted {txn : TxnId} {row : Row} {place : RowId} {change : Change} :
      row.place = some place → Deleted txn place.page.table row change db db' →
      Effect db db' (.delete txn row) (.ok (.changed change))
  | fetched {txn : TxnId} {page : PageId} {access : Access} {pinned : List Handle}
      {frame : Frame} : Fetched txn page access db frame db' →
      Effect db db' (.fetch txn page access pinned) (.ok (.fetched frame))
  | released {txn : TxnId} {page : PageId} :
      Quiet db db' → Effect db db' (.release txn page) (.ok .done)
  | scanned {txn : TxnId} {table : TableId} {yielded : Cursor.Yield} :
      Quiet db db' → (yielded.failure = none → db.Lists table yielded.rows) →
      Effect db db' (.scan txn table) (.ok (.scanned yielded))
  | failed {call : Call} {e : StorageError} : Quiet db db' → Effect db db' call (.error e)
  | flushed {call : Call} {answer : Except StorageError Answer} {flushed rest : List PageId} :
      call.flushes? db.cache = some (flushed ++ rest) → Flushed flushed db db' →
      (answer.isOk = true → rest = []) → Effect db db' call answer
  | discarded {call : Call} {pages : List PageId} :
      call.discards? db.cache = some pages → db'.Coherent → db'.catalog = db.catalog →
      db'.view = db.view.discardAll pages → Effect db db' call (.ok .done)

theorem Effect.of_flushEach {pages : List PageId} {result : Except StorageError Unit}
    (hc : db.Coherent) (hcall : call.flushes? db.cache = some pages)
    (hrun : (flushEach pages).run db = (result, db')) :
    Effect db db' call ((fun _ => Answer.done) <$> result) := by
  obtain ⟨flushed, rest, rfl, hf, hall⟩ := hc.flushEach hrun
  refine .flushed hcall hf fun hok => hall ?_
  cases result with
  | error e => cases hok
  | ok _ => rfl

theorem Coherent.effect (hc : db.Coherent) (hsmall : db.Small)
    (h : (Database.perform locking call).run db = (answer, db')) : Effect db db' call answer := by
  cases call with
  | insert txn table row =>
    obtain ⟨result, hrun, rfl⟩ := Action.run_map_eq h
    rcases hc.insert hsmall row.property hrun with ⟨e, rfl, hf⟩ | ⟨change, rfl, hi⟩
    · exact .fruitless hf
    · exact .inserted hi
  | delete txn row =>
    obtain ⟨result, hrun, rfl⟩ := Action.run_map_eq h
    rcases hc.delete hrun with ⟨e, rfl, hq⟩ | ⟨change, place, rfl, hplace, hd⟩
    · exact .failed hq
    · exact .deleted hplace hd
  | fetch txn page access pinned =>
    obtain ⟨result, hrun, rfl⟩ := Action.run_map_eq h
    rcases hc.fetch hrun with ⟨e, rfl, hafter⟩ | ⟨frame, rfl, hf⟩
    · exact .failed (.of_failed hc hafter)
    · exact .fetched hf
  | release txn page =>
    obtain ⟨result, hrun, rfl⟩ := Action.run_map_eq h
    obtain ⟨rfl, rfl⟩ := Prod.mk.inj hrun
    exact .released (.withLocks hc _)
  | flushPage page =>
    obtain ⟨result, hrun, rfl⟩ := Action.run_map_eq h
    rcases hc.flushPage hrun with ⟨e, rfl, rfl⟩ | ⟨rfl, hf⟩
    · exact .failed (.refl hc)
    · exact .flushed rfl hf fun _ => rfl
  | flushAll =>
    obtain ⟨result, hrun, rfl⟩ := Action.run_map_eq h
    exact .of_flushEach hc rfl hrun
  | flushPages txn =>
    obtain ⟨result, hrun, rfl⟩ := Action.run_map_eq h
    exact .of_flushEach hc rfl hrun
  | discard page =>
    obtain ⟨result, hrun, rfl⟩ := Action.run_map_eq h
    obtain ⟨mid, hdiscard, hmid, hcatalog, -, hview⟩ := hc.discard page
    obtain ⟨rfl, rfl⟩ := Prod.mk.inj (hdiscard.symm.trans hrun)
    exact .discarded rfl hmid hcatalog hview
  | complete txn commit =>
    obtain ⟨result, hrun, rfl⟩ := Action.run_map_eq h
    cases commit with
    | true =>
      obtain ⟨flushed, rest, hpages, hf, hall⟩ := hc.commit hrun
      refine .flushed (congrArg some hpages) hf fun hok => hall ?_
      cases result with
      | error e => cases hok
      | ok _ => rfl
    | false =>
      obtain ⟨rfl, hafter, hcatalog, -, hview⟩ := hc.abort hrun
      exact .discarded rfl hafter hcatalog hview
  | scan txn table =>
    obtain ⟨result, hrun, rfl⟩ := Action.run_map_eq h
    obtain ⟨hq, hlists⟩ := hc.scanTable hsmall hrun
    cases result with
    | error e => exact .failed hq
    | ok yielded => exact .scanned hq (hlists yielded rfl)

/-- Every call keeps the database coherent and its tables registered. -/
theorem Effect.coherent (h : Effect db db' call answer) :
    db'.Coherent ∧ db'.catalog = db.catalog := by
  cases h with
  | inserted hi => exact ⟨hi.coherent, hi.catalog_eq⟩
  | fruitless hf => exact ⟨hf.coherent, hf.catalog_eq⟩
  | deleted _ hd => exact ⟨hd.coherent, hd.catalog_eq⟩
  | fetched hf => exact ⟨hf.coherent, hf.catalog_eq⟩
  | released hq => exact ⟨hq.coherent, hq.catalog_eq⟩
  | scanned hq _ => exact ⟨hq.coherent, hq.catalog_eq⟩
  | failed hq => exact ⟨hq.coherent, hq.catalog_eq⟩
  | flushed _ hf _ => exact ⟨hf.coherent, hf.catalog_eq⟩
  | discarded _ hafter hcatalog _ => exact ⟨hafter, hcatalog⟩

end Database

/-- One call, with the databases before and after it. -/
structure Step (σ : Type) where
  before : Database σ
  call : Call
  answer : Except StorageError Answer
  after : Database σ

namespace Step

variable {σ : Type} {locking : LockManager σ} {s : Step σ}

def Taken (locking : LockManager σ) (s : Step σ) : Prop :=
  (Database.perform locking s.call).run s.before = (s.answer, s.after)

theorem Taken.coherent (h : s.Taken locking) (hc : s.before.Coherent) (hsmall : s.before.Small) :
    s.after.Coherent := (hc.effect hsmall h).coherent.1

end Step

/-- The steps taken from a database on, the last one first, and the database they lead to. No
step starts where a table has used up its page numbers. -/
inductive Run {σ : Type} (locking : LockManager σ) (start : Database σ) :
    List (Step σ) → Database σ → Prop
  | nil : Run locking start [] start
  | cons {steps : List (Step σ)} {s : Step σ} : Run locking start steps s.before →
      s.before.Small → s.Taken locking → Run locking start (s :: steps) s.after

namespace Run

variable {σ : Type} {locking : LockManager σ} {start db : Database σ} {steps : List (Step σ)}

theorem coherent (hrun : Run locking start steps db) (h : start.Fresh) : db.Coherent := by
  induction hrun with
  | nil => exact h.coherent
  | cons _ hsmall htaken ih => exact htaken.coherent ih hsmall

/-- Every step of a run starts in a coherent database. -/
theorem before_coherent (hrun : Run locking start steps db) (h : start.Fresh) :
    ∀ s ∈ steps, s.before.Coherent ∧ s.before.Small ∧ s.Taken locking := by
  induction hrun with
  | nil => simp
  | cons hrun hsmall htaken ih =>
    exact List.forall_mem_cons.2 ⟨⟨hrun.coherent h, hsmall, htaken⟩, ih⟩

end Run

namespace Step

variable {σ : Type}

/-- The step that a call takes. -/
def of (locking : LockManager σ) (db : Database σ) (call : Call) : Step σ :=
  ⟨db, call, ((Database.perform locking call).run db).1,
    ((Database.perform locking call).run db).2⟩

end Step

/-- Make calls one after another. The steps come the last one first, before the given ones. -/
def Database.play {σ : Type} (locking : LockManager σ) (steps : List (Step σ)) (db : Database σ) :
    List Call → List (Step σ) × Database σ
  | [] => (steps, db)
  | call :: calls =>
    let s := Step.of locking db call
    play locking (s :: steps) s.after calls

namespace Run

variable {σ : Type} {locking : LockManager σ} {start db : Database σ} {steps : List (Step σ)}

theorem mem_play {s : Step σ} (calls : List Call) (h : s ∈ steps) :
    s ∈ (Database.play locking steps db calls).1 := by
  induction calls generalizing steps db with
  | nil => exact h
  | cons call calls ih => exact ih (List.mem_cons_of_mem _ h)

theorem play (hrun : Run locking start steps db) {calls : List Call}
    (hsmall : ∀ s ∈ (Database.play locking steps db calls).1, s.before.Small) :
    Run locking start (Database.play locking steps db calls).1
      (Database.play locking steps db calls).2 := by
  induction calls generalizing steps db with
  | nil => exact hrun
  | cons call calls ih =>
    have hbefore := hsmall (Step.of locking db call) (mem_play calls List.mem_cons_self)
    exact ih (Run.cons hrun hbefore rfl) hsmall

end Run

namespace Database

theorem small_of_entries {σ : Type} {db : Database σ}
    (h : ∀ e ∈ db.catalog.byId.entries, e.2.file.pageCount db.volume < 0x100000000) :
    db.Small := fun _ _ hr =>
  h _ (Keyed.mem_entries_of_get? (Catalog.registration_eq_ok.1 hr))

end Database

/-- Calls made one after another are a run if the files stay small. -/
theorem Run.of_calls {σ : Type} (locking : LockManager σ) (start : Database σ) (calls : List Call)
    (h : ∀ s ∈ (Database.play locking [] start calls).1,
      ∀ e ∈ s.before.catalog.byId.entries, e.2.file.pageCount s.before.volume < 0x100000000) :
    Run locking start (Database.play locking [] start calls).1
      (Database.play locking [] start calls).2 :=
  Run.nil.play fun s hs => Database.small_of_entries (h s hs)

namespace Database

def withoutTables (pageSize capacity : Nat) : Database Unit :=
  ⟨⟨pageSize, capacity, false⟩, ⟨[[]], Keyed.empty⟩, Catalog.empty, Cache.ofCapacity capacity, ()⟩

/-- A database of one table, which is stored in a new file. -/
def ofTable (schema : Schema) (pageSize capacity : Nat) : Database Unit :=
  ((addTable ⟨⟨["t"], TableFile.idOf ["t"], schema, pageSize⟩, "t", "", .none⟩).run
    (withoutTables pageSize capacity)).2

/-- Rows of one number. -/
def numbers : Schema := ⟨[⟨.int, none⟩]⟩

def number (n : Int32) : { row : Row // row.Valid } :=
  ⟨⟨numbers, [.int n], none⟩,
    Row.valid_of_ofValues (show Row.ofValues numbers [.int n] = _ from rfl)⟩

theorem Fresh.ofTable {schema : Schema} {pageSize capacity : Nat} {layout : Layout}
    (hs : schema.Valid) (hsize : pageSize < 0x100000000)
    (hlayout : Layout.ofSchema schema pageSize = .ok layout) :
    (Database.ofTable schema pageSize capacity).Fresh :=
  have hfresh : (withoutTables pageSize capacity).Fresh :=
    ⟨Catalog.intact_empty _, capacity, rfl⟩
  hfresh.addTable (.of_empty hs hsize hlayout rfl)
    fun _ _ hr => absurd hr Catalog.registration_empty

end Database

end RowStore
