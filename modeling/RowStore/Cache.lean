import RowStore.Cache.Ranking
import RowStore.Page

/-!
# The page cache

A bounded number of pages in memory. A fetch falls into three steps, between which other fetches
may run: `request` serves a page that is resident or else marks it as being loaded, the page is
read from its file, and `settle` takes the mark off and installs the page, giving up another one
if the cache is full. Pages that are dirty or write-locked are never given up.

Whoever fetched a page holds it by a handle. A page that leaves the cache is set aside under its
handle, so that its holders still see it.

The counters are natural numbers. None is greater than the number of successful fetches
(`Cache.CountsTo`), so words of 64 bits would do as long as there are fewer than `2 ^ 64` of them.
-/

namespace RowStore

/-- Names one copy of a page in memory. -/
structure Handle where
  page : PageId
  serial : Nat
  deriving DecidableEq, Repr

structure Frame where
  handle : Handle
  page : Page
  deriving DecidableEq

structure CacheStats where
  hits : Nat
  misses : Nat
  evictions : Nat
  resident : Nat
  capacity : Nat
  deriving DecidableEq, Repr

structure Cache where
  capacity : Nat
  frames : Keyed PageId Frame
  ranking : Ranking
  loading : List PageId
  hits : Nat
  misses : Nat
  evictions : Nat
  /-- Pages that left the cache. -/
  setAside : Keyed Handle Page
  nextSerial : Nat
  deriving DecidableEq

/-- What the first step of a fetch finds. -/
inductive Response where
  | served (frame : Frame)
  | busy
  | load
  deriving DecidableEq

namespace Cache

/-- An empty cache. It holds at least one page whatever it is asked for. -/
def ofCapacity (capacity : Nat) : Cache :=
  ⟨max capacity 1, Keyed.empty, Ranking.empty, [], 0, 0, 0, Keyed.empty, 0⟩

def size (c : Cache) : Nat := c.frames.size

def isEmpty (c : Cache) : Bool := c.size = 0

def isResident (c : Cache) (page : PageId) : Bool := c.frames.contains page

def uses? (c : Cache) (page : PageId) : Option Nat := c.ranking.uses? page

def stats (c : Cache) : CacheStats := ⟨c.hits, c.misses, c.evictions, c.size, c.capacity⟩

/-- The page behind a handle, in the cache or set aside. -/
def page? (c : Cache) (h : Handle) : Option Page :=
  match c.frames.get? h.page with
  | some frame => if frame.handle = h then some frame.page else c.setAside.get? h
  | none => c.setAside.get? h

/-- Change the page behind a handle. -/
def modify (c : Cache) (h : Handle) (f : Page → Page) : Cache :=
  { c with
    frames := c.frames.adjust h.page fun frame =>
      if frame.handle = h then { frame with page := f frame.page } else frame
    setAside := c.setAside.adjust h f }

/-- The pages that differ from their stored images, or those of them that `txn` touched last. They
come in the order of the frames, which no caller may rely on. -/
def dirtyPages (c : Cache) (txn : Option TxnId) : List PageId :=
  (c.frames.entries.filter fun e =>
    e.2.page.isDirty && (match txn with
      | none => true
      | some t => e.2.page.dirtiedBy t)).map Prod.fst

/-- Take a page out of the frames and the ranking. Its holders keep it. -/
def drop (c : Cache) (page : PageId) : Cache :=
  { c with
    frames := c.frames.erase page
    ranking := c.ranking.remove page
    setAside := match c.frames.get? page with
      | some frame => c.setAside.put frame.handle frame.page
      | none => c.setAside }

/-- Whether a page may be given up while its holders have locked the `pinned` ones for writing. -/
def evictable (c : Cache) (pinned : List Handle) (page : PageId) : Bool :=
  match c.frames.get? page with
  | some frame => !pinned.contains frame.handle && !frame.page.isDirty
  | none => false

/-- Make room for one page, if the cache is full. -/
def makeRoom (c : Cache) (pinned : List Handle) : Except StorageError Cache :=
  if c.size < c.capacity then .ok c
  else
    match c.ranking.candidates.find? (c.evictable pinned) with
    | none => .error .cacheExhausted
    | some victim => .ok { c.drop victim with evictions := c.evictions + 1 }

/-- Note that `txn` is about to write a page, if that is what it asked for. -/
def touch (txn : TxnId) (access : Access) (p : Page) : Page :=
  if access.isWrite then p.markDirty (some txn) else p

/-- The first step of a fetch. -/
def request (c : Cache) (txn : TxnId) (page : PageId) (access : Access) : Response × Cache :=
  match c.frames.get? page with
  | some frame =>
    let frame := { frame with page := touch txn access frame.page }
    (.served frame,
      { c with
        frames := c.frames.adjust page fun _ => frame
        ranking := c.ranking.access page
        hits := c.hits + 1 })
  | none =>
    if page ∈ c.loading then (.busy, c)
    else (.load, { c with loading := page :: c.loading })

/-- Put a page that was just read into the cache. -/
def install (c : Cache) (page : PageId) (p : Page) : Frame × Cache :=
  let frame : Frame := ⟨⟨page, c.nextSerial⟩, p⟩
  (frame,
    { c with
      frames := c.frames.put page frame
      ranking := c.ranking.access page
      misses := c.misses + 1
      nextSerial := c.nextSerial + 1 })

/-- The last step of a fetch, with what came of reading the page. -/
def settle (c : Cache) (txn : TxnId) (page : PageId) (access : Access) (pinned : List Handle)
    (read : Except StorageError Page) : Except StorageError Frame × Cache :=
  let c := { c with loading := c.loading.erase page }
  match read with
  | .error e => (.error e, c)
  | .ok p =>
    match c.makeRoom pinned with
    | .error e => (.error e, c)
    | .ok roomy =>
      let (frame, c) := roomy.install page (touch txn access p)
      (.ok frame, c)

end Cache

end RowStore
