import RowStore.Action
import RowStore.Cache
import RowStore.Catalog
import RowStore.Locking
import RowStore.Settings

/-!
# The database

A volume, a catalog over it, one page cache, and the state of a lock manager. Every page is fetched
through the cache; pages go back to their files when they are flushed, which a commit does for the
pages of its transaction. An abort drops them instead, so that the next fetch reads the last
flushed image.
-/

namespace RowStore

structure Database (σ : Type) where
  settings : Settings
  volume : Volume
  catalog : Catalog
  cache : Cache
  locks : σ

structure DatabaseStats where
  tables : Nat
  pages : Nat
  cache : CacheStats
  deriving DecidableEq, Repr

namespace Database

variable {σ : Type}

/-- A database without tables over a volume. -/
def start (settings : Settings) (volume : Volume) (locks : σ) :
    Except StorageError (Database σ) := do
  settings.validate
  return ⟨settings, volume, Catalog.empty, Cache.ofCapacity settings.cacheCapacity, locks⟩

/-- The registration of a table. -/
def lookup (table : TableId) : Action (Database σ) Registration :=
  .query fun db => db.catalog.registration table

/-- Register the table stored in a file. -/
def addTable (r : Registration) : Action (Database σ) Unit :=
  .update fun db => { db with catalog := db.catalog.add r }

/-- Act on the volume alone. -/
def onVolume {α : Type} (x : Action Volume α) : Action (Database σ) α :=
  x.within volume fun v db => { db with volume := v }

/-- Act on the cache alone. -/
def onCache {α : Type} (x : Action Cache α) : Action (Database σ) α :=
  x.within cache fun c db => { db with cache := c }

/-- Act on the state of the lock manager alone. -/
def onLocks {α : Type} (x : Action σ α) : Action (Database σ) α :=
  x.within locks fun l db => { db with locks := l }

/-- Open or create a table file with pages of a size of its own. -/
def openFile (folder : Path) (name : String) (schema : Schema) (pageSize : Nat) :
    Action (Database σ) TableFile :=
  onVolume ⟨TableFile.openIn folder name schema pageSize⟩

/-- Open or create a table file and register it. -/
def openTable (folder : Path) (file : String) (schema : Schema) (name primaryKey : String) :
    Action (Database σ) TableFile := do
  let f ← openFile folder file schema (← .ask fun db => db.settings.pageSize)
  addTable ⟨f, name, primaryKey, .none⟩
  return f

/-- Read a page from the file of its table. -/
def load (db : Database σ) (page : PageId) : Except StorageError Page := do
  (← db.catalog.registration page.table).readPage db.volume page

/-- Write a page to the file of its table. -/
def store (db : Database σ) (page : PageId) (p : Page) : Except StorageError Volume := do
  (← db.catalog.registration page.table).writePage db.volume p

variable (locking : LockManager σ)

/-- Fetch a page while the pages behind `pinned` are locked for writing by their holders. -/
def fetch (txn : TxnId) (page : PageId) (access : Access) (pinned : List Handle) :
    Action (Database σ) Frame := do
  onLocks ⟨locking.acquire txn page access⟩
  match ← onCache (.step fun c => c.request txn page access) with
  | .served frame => return frame
  | .busy => .fail .stalled
  | .load =>
    let read ← .ask fun db => db.load page
    onCache ⟨fun c => c.settle txn page access pinned read⟩

def release (txn : TxnId) (page : PageId) : Action (Database σ) Unit :=
  onLocks (.update (locking.release txn page))

def holdsLock (txn : TxnId) (page : PageId) : Action (Database σ) Bool :=
  .ask fun db => locking.holds txn page db.locks

/-- Take a page out of the cache without writing it, dirty or not. -/
def discard (page : PageId) : Action (Database σ) Unit :=
  onCache (.update fun c => c.drop page)

def discardAll : List PageId → Action (Database σ) Unit
  | [] => pure ()
  | page :: pages => do
    discard page
    discardAll pages

/-- Write a resident page to its file, after which it is clean. -/
def flushPage (page : PageId) : Action (Database σ) Unit :=
  ⟨fun db =>
    match db.cache.frames.get? page with
    | none => (.ok (), db)
    | some frame =>
      match db.store page frame.page with
      | .error e => (.error e, db)
      | .ok v =>
        (.ok (), { db with volume := v, cache := db.cache.modify frame.handle .markClean })⟩

def flushEach : List PageId → Action (Database σ) Unit
  | [] => pure ()
  | page :: pages => do
    flushPage page
    flushEach pages

def flushAll : Action (Database σ) Unit := do
  flushEach (← .ask fun db => db.cache.dirtyPages none)

/-- Flush the pages that a transaction touched last. -/
def flushPages (txn : TxnId) : Action (Database σ) Unit := do
  flushEach (← .ask fun db => db.cache.dirtyPages (some txn))

/-- End a transaction. Its locks go only when all of its pages were dealt with. -/
def complete (txn : TxnId) (commit : Bool) : Action (Database σ) Unit := do
  if commit then flushPages txn
  else discardAll (← .ask fun db => db.cache.dirtyPages (some txn))
  onLocks (.update (locking.releaseAll txn))

def stats (db : Database σ) : DatabaseStats :=
  ⟨db.catalog.size, total (fun r => r.file.pageCount db.volume) db.catalog.byId.values,
    db.cache.stats⟩

end Database

end RowStore
