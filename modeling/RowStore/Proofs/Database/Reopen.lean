import RowStore.Proofs.Database.Cleaning
import RowStore.Proofs.File.Listing

/-!
# Flushing all pages and opening the files again

After all pages were flushed no page is changed, and apart from that the cache is as it was. What a
table shows is then what its file has, page by page, so a scan yields the rows that are read
straight from the file, whichever of its pages are in the cache. Another database over the same
files opens each of them by its name and yields the same rows.
-/

namespace RowStore

/-- The pages are those that differ from their stored images, in some order. -/
def Cache.AllChanged (c : Cache) (pages : List PageId) : Prop :=
  ∀ page, page ∈ pages ↔ ∃ frame, c.frames.get? page = some frame ∧ frame.page.isDirty = true

theorem Cache.allChanged_dirtyPages {c : Cache} (h : c.frames.WellKeyed) :
    c.AllChanged (c.dirtyPages none) := fun _ => by simp [mem_dirtyPages h]

/-- Every request to read a page is granted to the transaction. -/
def LockManager.GrantsReads {σ : Type} (locking : LockManager σ) (txn : TxnId) : Prop :=
  ∀ page s, (locking.acquire txn page .readOnly s).1 = .ok ()

namespace Database

variable {σ : Type} {locking : LockManager σ} {txn : TxnId} {page : PageId} {r : Registration}
  {pages : List PageId} {db db' : Database σ}

/-! ## Flushing -/

theorem Coherent.housed (h : db.Coherent) : db.cache.Housed :=
  fun page frame hf => ⟨(h.backed page frame hf).handle_eq, (h.backed page frame hf).id_eq⟩

/-- No page is changed. -/
def Clean (db : Database σ) : Prop :=
  ∀ (page : PageId) (frame : Frame), db.cache.frames.get? page = some frame →
    frame.page.isDirty = false

/-- All pages are flushed: nothing but the marks of changed pages and the files is different. -/
structure AllFlushed (db db' : Database σ) : Prop where
  coherent : db'.Coherent
  clean : db'.Clean
  cache : Cache.Cleans (db.cache.dirtyPages none) db.cache db'.cache
  catalog_eq : db'.catalog = db.catalog
  locks_eq : db'.locks = db.locks
  cells?_eq : ∀ page, db'.view.cells? page = db.view.cells? page

/-- It does not matter in which order the pages are flushed. -/
theorem Coherent.allFlushed (h : db.Coherent) (hchanged : db.cache.AllChanged pages)
    (hrun : (Database.flushEach pages).run db = (.ok (), db')) : AllFlushed db db' := by
  obtain ⟨flushed, rest, hpages, hflushed, hall⟩ := h.flushEach hrun
  obtain rfl := hall rfl
  rw [List.append_nil] at hpages
  obtain ⟨hcache, hlocks⟩ := cleans_flushEach_ok h.housed hrun
  have hsame (q : PageId) : q ∈ pages ↔ q ∈ db.cache.dirtyPages none :=
    (hchanged q).trans (Cache.allChanged_dirtyPages h.wellKeyed q).symm
  have hcells (q : PageId) : db'.view.cells? q = db.view.cells? q := by
    rw [hflushed.view_eq, View.cells?_flushAll]
  refine ⟨hflushed.coherent, ?_, hcache.congr hsame, hflushed.catalog_eq, hlocks, hcells⟩
  intro page frame hf
  have hdraft := drafts_of_resident hf
  rw [hflushed.view_eq, View.drafts_flushAll, ← hpages] at hdraft
  cases hdirty : frame.page.isDirty with
  | false => rfl
  | true =>
    -- a page that is still changed was changed before, so it was flushed
    rw [Page.draft?_of_dirty hdirty] at hdraft
    split at hdraft
    · cases hdraft
    · next hmem =>
      exact absurd ((hsame page).2 (h.mem_dirtyPages.2 ⟨_, hdraft, by simp⟩)) hmem

theorem Clean.flushAll (h : db.Clean) (hkeys : db.cache.frames.WellKeyed) :
    (Database.flushAll).run db = (.ok (), db) := by
  have hnone : db.cache.dirtyPages none = [] := by
    refine List.eq_nil_iff_forall_not_mem.2 fun page hpage => ?_
    obtain ⟨frame, hf, hdirty⟩ := (Cache.allChanged_dirtyPages hkeys page).1 hpage
    rw [h page frame hf] at hdirty
    cases hdirty
  show (Database.flushEach (db.cache.dirtyPages none)).run db = _
  rw [hnone]
  rfl

/-! ## Scanning a database without changed pages -/

/-- Nothing is changed, and any page may be given up. -/
structure Rested (db : Database σ) : Prop where
  coherent : db.Coherent
  clean : db.Clean
  records : ∃ (capacity : Nat) (moves : List (Move σ)), db.cache.Records capacity moves

/-- A database without changed pages shows what the files have. -/
theorem Clean.view_drafts (h : db.Clean) (page : PageId) : db.view.drafts page = none := by
  cases hf : db.cache.frames.get? page with
  | none => exact drafts_of_absent hf
  | some frame => rw [drafts_of_resident hf, Page.draft?_of_clean (h page frame hf)]

/-- A page that was fetched for reading shows what its file has. -/
theorem Clean.cells_of_fetched {frame : Frame} (h : db.Clean)
    (hr : db.catalog.registration page.table = .ok r)
    (hf : Fetched txn page .readOnly db frame db') :
    ∃ q, db.catalog.stored? db.volume page = some q ∧
      r.file.readPage db.volume page = .ok q ∧ q.cells = frame.page.cells := by
  have hshown : (db.catalog.stored? db.volume page).map Page.cells = some frame.page.cells := by
    have hcells := View.cells?_of_no_draft (h.view_drafts page)
    rw [hf.shows] at hcells
    exact hcells.symm
  obtain ⟨q, hq, hcells⟩ := Option.map_eq_some_iff.1 hshown
  obtain ⟨s, hs, hread⟩ := Catalog.stored?_eq_some.1 hq
  obtain rfl : r = s := Except.ok.inj (hr.symm.trans hs)
  exact ⟨q, hq, hread, hcells⟩

/-- It tells what is read from its file. -/
theorem Clean.readPage_of_fetched {frame : Frame} (h : db.Clean)
    (hr : db.catalog.registration page.table = .ok r)
    (hf : Fetched txn page .readOnly db frame db') :
    ∃ q, r.file.readPage db.volume page = .ok q ∧
      q.rows.map Row.facts = frame.page.rows.map Row.facts := by
  obtain ⟨hb, hid⟩ := hf.belongs hr
  obtain ⟨q, hq, hread, hcells⟩ := h.cells_of_fetched hr hf
  exact ⟨q, hread, (TableFile.belongsTo_of_readPage hread).facts_eq hb
    ((Catalog.id_of_stored? hq).trans hid.symm) hcells⟩

theorem Clean.of_fetch {frame : Frame} (h : db.Clean)
    (hrun : (Database.fetch locking txn page .readOnly []).run db = (.ok frame, db')) :
    db'.Clean := by
  intro q f hq
  rcases fetch_cases hrun with ⟨e, he, -⟩ | ⟨old, hf, -, hdb⟩ | ⟨p, roomy, -, hp, hroom, -, hdb⟩
  · cases he
  · rw [hdb, Cache.get?_request txn .readOnly hf] at hq
    split at hq
    · obtain rfl := Option.some.inj hq
      exact h page old hf
    · exact h q f hq
  · rw [hdb, Cache.get?_install] at hq
    split at hq
    · obtain rfl := Option.some.inj hq
      exact Catalog.isDirty_of_stored? hp
    · exact h q f (Cache.get?_of_makeRoom hroom hq)

/-- What reading a page gives if no failure is injected. -/
theorem load_of_registration (hr : db.catalog.registration page.table = .ok r)
    (hfaults : r.faults.read = false) : db.load page = r.file.readPage db.volume page := by
  simp [load, hr, Registration.readPage, hfaults, bind, Except.bind]

namespace Rested

theorem of_fetch {frame : Frame} (h : db.Rested)
    (hrun : (Database.fetch locking txn page .readOnly []).run db = (.ok frame, db')) :
    db'.Rested := by
  have hcoherent : db'.Coherent := by
    rcases h.coherent.fetch hrun with ⟨e, he, -⟩ | ⟨_, -, hf⟩
    · cases he
    · exact hf.coherent
  refine ⟨hcoherent, h.clean.of_fetch hrun, ?_⟩
  obtain ⟨capacity, moves, hrecords⟩ := h.records
  have hafter := Move.after_of_fetch locking db txn page .readOnly []
  rw [hrun] at hafter
  have hstep := hrecords.step (Move.made_of_fetch locking db txn page .readOnly []).alters
  rw [hafter] at hstep
  exact ⟨capacity, _, hstep⟩

/-- A cache that is full has pages, and any of them may be given up. -/
theorem spare (h : db.Rested) (hfull : db.cache.capacity ≤ db.cache.size) :
    ∃ q, db.cache.Spare [] q := by
  obtain ⟨capacity, moves, hrecords⟩ := h.records
  have hcapacity := hrecords.capacity_eq
  have hpos : 0 < db.cache.frames.keys.length := by
    rw [Keyed.keys, List.length_map]
    exact Nat.lt_of_lt_of_le (by omega) hfull
  obtain ⟨q, hq⟩ := List.exists_mem_of_length_pos hpos
  obtain ⟨frame, hf⟩ := Option.isSome_iff_exists.1 (Keyed.mem_keys.1 hq)
  exact ⟨q, frame, hf, h.clean q frame hf, by simp⟩

theorem makeRoom (h : db.Rested) : ∃ roomy, db.cache.makeRoom [] = .ok roomy := by
  by_cases hroom : db.cache.size < db.cache.capacity
  · exact ⟨_, if_pos hroom⟩
  · obtain ⟨capacity, moves, hrecords⟩ := h.records
    have hfull := Nat.not_lt.1 hroom
    obtain ⟨q, hq⟩ := h.spare hfull
    obtain ⟨victim, -, hmake⟩ := hrecords.makeRoom_of_spare hfull hq
    exact ⟨_, hmake⟩

/-- If every request is granted, only what is wrong in the file keeps a page from being read. -/
theorem readPage_of_fetch_error {e : StorageError} (h : db.Rested)
    (hgrants : locking.GrantsReads txn) (hr : db.catalog.registration page.table = .ok r)
    (hfaults : r.faults.read = false)
    (hrun : (Database.fetch locking txn page .readOnly []).run db = (.error e, db')) :
    r.file.readPage db.volume page = .error e := by
  rcases hlock : locking.acquire txn page .readOnly db.locks with ⟨granted, locks⟩
  obtain rfl : granted = .ok () := by rw [← hgrants page db.locks, hlock]
  cases hf : db.cache.frames.get? page with
  | some frame =>
    rw [fetch_of_hit [] hlock hf] at hrun
    cases hrun
  | none =>
    obtain ⟨roomy, hroom⟩ := h.makeRoom
    rw [fetch_of_miss [] hlock hf h.coherent.loading, hroom] at hrun
    rw [← load_of_registration hr hfaults]
    cases hload : db.load page with
    | error e' =>
      rw [hload] at hrun
      rw [Except.error.inj (Prod.mk.inj hrun).1]
    | ok p =>
      rw [hload] at hrun
      cases hrun

end Rested

/-- Nothing but the file keeps a scan from its rows: it met no failure, or it is granted every page
and no failure is injected. -/
def Unhindered (locking : LockManager σ) (txn : TxnId) (r : Registration)
    (yielded : Cursor.Yield) : Prop :=
  yielded.failure = none ∨ locking.GrantsReads txn ∧ r.faults.read = false

/-- An unhindered scan yields the rows of the file, whatever pages the cache has. -/
theorem Rested.drainPages {ns : List Nat} {yielded : Cursor.Yield} (h : db.Rested)
    (hr : db.catalog.registration r.file.id = .ok r)
    (hrun : Cursor.drainPages locking r.file txn ns db = (yielded, db'))
    (hfree : Unhindered locking txn r yielded) :
    yielded.facts = (r.file.readRows db.volume ns).facts := by
  induction ns generalizing db db' yielded with
  | nil =>
    obtain ⟨rfl, -⟩ := Prod.mk.inj hrun
    rfl
  | cons n ns ih =>
    rcases hfetch : (Database.fetch locking txn (r.file.pageAt n) .readOnly []).run db with
      ⟨fetched, mid⟩
    simp only [Cursor.drainPages, Cursor.pageRows, Action.run_bind, hfetch] at hrun
    rcases h.coherent.fetch hfetch with ⟨e, rfl, -⟩ | ⟨frame, rfl, hf⟩
    · obtain ⟨rfl, -⟩ := Prod.mk.inj hrun
      obtain hok | ⟨hgrants, hfaults⟩ := hfree
      · cases hok
      · simp only [TableFile.readRows, h.readPage_of_fetch_error hgrants hr hfaults hfetch]
    · rcases hrest : Cursor.drainPages locking r.file txn ns mid with ⟨rest, last⟩
      simp only [Action.run_pure, hrest, Prod.mk.injEq] at hrun
      obtain ⟨rfl, rfl⟩ := hrun
      obtain ⟨q, hq, hrows⟩ := h.clean.readPage_of_fetched hr hf
      have hfacts := ih (h.of_fetch hfetch) (hf.catalog_eq ▸ hr) hrest hfree
      rw [hf.volume_eq] at hfacts
      obtain ⟨hmap, hfailure⟩ := Prod.mk.inj hfacts
      simp only [TableFile.readRows, hq, Cursor.Yield.facts, List.map_append, hrows, hmap, hfailure]

theorem Rested.scan {yielded : Cursor.Yield} (h : db.Rested)
    (hr : db.catalog.registration r.file.id = .ok r)
    (hrun : Database.scan locking r.file txn db = (yielded, db'))
    (hfree : Unhindered locking txn r yielded) :
    yielded.facts = (r.file.listing db.volume).facts := by
  rcases hdrain : Cursor.drainPages locking r.file txn
    (List.range' 0 (r.file.pageCount db.volume)) db with ⟨rest, last⟩
  simp only [Database.scan, Cursor.drain, Cursor.new, Cursor.pagesLeft, Bool.false_eq_true,
    if_false, Nat.sub_zero, hdrain, List.nil_append, Prod.mk.injEq] at hrun
  obtain ⟨rfl, rfl⟩ := hrun
  exact h.drainPages hr hdrain hfree

/-! ## Opening again -/

theorem Fresh.rested (h : db.Fresh) : db.Rested := by
  obtain ⟨capacity, hcache⟩ := h.cache
  refine ⟨h.coherent, ?_, capacity, [], hcache ▸ Cache.records_ofCapacity σ capacity⟩
  intro page frame hf
  rw [hcache] at hf
  cases hf

/-- Opening a table registers the file that is opened. -/
theorem openTable_of_openIn {folder : Path} {file : String} {schema : Schema} {f : TableFile}
    {w : Volume}
    (h : TableFile.openIn folder file schema db.settings.pageSize db.volume = (.ok f, w))
    (name primaryKey : String) :
    (openTable folder file schema name primaryKey).run db =
      (.ok f, ((addTable ⟨f, name, primaryKey, .none⟩).run { db with volume := w }).2) := by
  simp [openTable, openFile, onVolume, Action.run_bind, Action.run_map, Except.map, h, addTable]

/-- A table is the only one of a database that was just started. -/
structure Reopened (r : Registration) (volume : Volume) (db : Database σ) : Prop where
  fresh : db.Fresh
  registered : db.catalog.registration r.file.id = .ok r
  read_eq : db.volume.read r.file.path = volume.read r.file.path

/-- A file that was opened by a name is opened by it again in another database, with a cache of any
size. -/
theorem reopen {folder : Path} {file : String} {f : TableFile} {v v' w : Volume}
    (hfile : f.Intact v')
    (hopened : TableFile.openIn folder file f.schema f.pageSize v = (.ok f, w))
    (hfolders : v'.folders = v.folders) {capacity : Nat} (hcapacity : capacity ≠ 0) (sync : Bool)
    (name primaryKey : String) (locks : σ) :
    ∃ blank db, start ⟨f.pageSize, capacity, sync⟩ v' locks = .ok blank ∧
      (openTable folder file f.schema name primaryKey).run blank = (.ok f, db) ∧
      Reopened ⟨f, name, primaryKey, .none⟩ v' db := by
  obtain ⟨w', hopen, hread⟩ := TableFile.openIn_again hopened hfolders hfile.aligned
  obtain ⟨layout, hlayout⟩ := hfile.layout
  have hpos := TableFile.pos_of_ofSchema hlayout
  have hvalid : Settings.validate ⟨f.pageSize, capacity, sync⟩ = .ok () := by
    simp [Settings.validate, Nat.ne_of_gt hpos, hcapacity]
  let blank : Database σ :=
    ⟨⟨f.pageSize, capacity, sync⟩, v', Catalog.empty, Cache.ofCapacity capacity, locks⟩
  have hopen : TableFile.openIn folder file f.schema blank.settings.pageSize blank.volume =
      (.ok f, w') := hopen
  have hfresh : Fresh { blank with volume := w' } := ⟨Catalog.intact_empty _, capacity, rfl⟩
  refine ⟨blank, _, ?_, openTable_of_openIn hopen name primaryKey, ?_, ?_, hread _⟩
  · simp only [start, hvalid]
    rfl
  · exact hfresh.addTable (hfile.of_read_eq (hread _))
      fun _ _ hs => absurd hs Catalog.registration_empty
  · exact Catalog.registration_eq_ok.2 (Keyed.get?_put_self _ _ _)

end Database

namespace Run

variable {σ : Type} {locking : LockManager σ} {start db db' : Database σ} {steps : List (Step σ)}
  {pages : List PageId}

/-- The moves of a run and of flushing some pages after it. -/
theorem trace_flushEach (hrun : Run locking start steps db) (hstart : start.cache.Housed)
    (hflush : (Database.flushEach pages).run db = (.ok (), db')) :
    ∃ moves, Trace locking start moves db' ∧ ∀ m ∈ moves, m.deed.Within start.catalog := by
  obtain ⟨earlier, hearlier, hwithin⟩ := hrun.trace hstart
  have hsplits : Database.Splits locking start.catalog (Database.flushEach pages) db :=
    Database.divides_flushEach _ _ (hearlier.housed hstart) (hearlier.catalog_of_within hwithin)
  obtain ⟨later, hlater, hrest⟩ := hsplits
  have htrace := hlater.trace
  rw [hflush] at htrace
  exact ⟨later ++ earlier, hearlier.trans htrace, List.forall_mem_append.2 ⟨hrest, hwithin⟩⟩

/-- After any run, flushing all changed pages, in any order, changes nothing but the marks of
changed pages and the files; then no page is changed, and flushing again does nothing. Another
database over the files opens each table by any name that its file was opened by, and scans of it
yield what scans of the first database yield. -/
theorem flushed_survives (hfresh : start.Fresh) (hrun : Run locking start steps db) :
    (∃ pages, db.cache.AllChanged pages ∧
      (Database.flushAll).run db = (Database.flushEach pages).run db) ∧
    ∀ pages db', db.cache.AllChanged pages → (Database.flushEach pages).run db = (.ok (), db') →
      Database.AllFlushed db db' ∧ (Database.flushAll).run db' = (.ok (), db') ∧
      ∀ r, db'.catalog.registration r.file.id = .ok r →
        ∀ (folder : Path) (file : String) (v w : Volume), v.folders = start.volume.folders →
          TableFile.openIn folder file r.file.schema r.file.pageSize v = (.ok r.file, w) →
        ∀ (τ : Type) (other : LockManager τ) (locks : τ) (capacity : Nat) (sync : Bool)
          (name primaryKey : String), capacity ≠ 0 →
          ∃ blank opened,
            Database.start ⟨r.file.pageSize, capacity, sync⟩ db'.volume locks = .ok blank ∧
            (Database.openTable folder file r.file.schema name primaryKey).run blank =
              (.ok r.file, opened) ∧
            ∀ reader reader' yielded yielded' last last',
              Database.scan locking r.file reader db' = (yielded, last) →
              Database.scan other r.file reader' opened = (yielded', last') →
              Database.Unhindered locking reader r yielded →
              Database.Unhindered other reader' ⟨r.file, name, primaryKey, .none⟩ yielded' →
              yielded'.facts = yielded.facts := by
  obtain ⟨startCapacity, hcache⟩ := hfresh.cache
  have hcoherent := hrun.coherent hfresh
  refine ⟨⟨_, Cache.allChanged_dirtyPages hcoherent.wellKeyed, rfl⟩, ?_⟩
  intro pages db' hchanged hflush
  have hall := hcoherent.allFlushed hchanged hflush
  obtain ⟨moves, htrace, -⟩ := hrun.trace_flushEach
    (hcache ▸ Cache.housed_ofCapacity startCapacity) hflush
  have hrested : db'.Rested :=
    ⟨hall.coherent, hall.clean, startCapacity, moves, htrace.records hcache⟩
  refine ⟨hall, hall.clean.flushAll hall.coherent.wellKeyed, ?_⟩
  intro r hr folder file v w hfolders hopened τ other locks capacity sync name primaryKey hcapacity
  obtain ⟨blank, opened, hstart, hopen, hreopened⟩ := Database.reopen
    (hall.coherent.tables.file _ r hr) hopened (htrace.folders_eq.trans hfolders.symm) hcapacity
    sync name primaryKey locks
  refine ⟨blank, opened, hstart, hopen, ?_⟩
  intro reader reader' yielded yielded' last last' hscan hscan' hfree hfree'
  rw [hrested.scan hr hscan hfree,
    hreopened.fresh.rested.scan hreopened.registered hscan' hfree',
    TableFile.listing_congr hreopened.read_eq]

/-- Two pages of rows of which one was deleted, flushed and then opened by a database with a cache
of one page. -/
theorem flushed_survives_two_pages :
    ∃ steps db db' blank opened,
      Run .permissive (Database.ofTable Database.numbers 9 2) steps db ∧
      (db.cache.dirtyPages none).length = 2 ∧
      (Database.flushAll).run db = (.ok (), db') ∧
      (Database.flushAll).run db' = (.ok (), db') ∧
      Database.start ⟨9, 1, false⟩ db'.volume () = .ok blank ∧
      (Database.openTable [] "./t" Database.numbers "again" "").run blank =
        (.ok ⟨["t"], TableFile.idOf ["t"], Database.numbers, 9⟩, opened) ∧
      (Database.scan .permissive ⟨["t"], TableFile.idOf ["t"], Database.numbers, 9⟩ ⟨8⟩
        opened).1.facts =
        ([([.int], [.int 5], some ⟨⟨TableFile.idOf ["t"], 0⟩, 0⟩),
          ([.int], [.int 7], some ⟨⟨TableFile.idOf ["t"], 1⟩, 0⟩)], none) := by
  let file : TableFile := ⟨["t"], TableFile.idOf ["t"], Database.numbers, 9⟩
  let result := Database.play .permissive [] (Database.ofTable Database.numbers 9 2)
    [.insert ⟨1⟩ (TableFile.idOf ["t"]) (Database.number 5),
      .insert ⟨1⟩ (TableFile.idOf ["t"]) (Database.number 6),
      .insert ⟨1⟩ (TableFile.idOf ["t"]) (Database.number 7),
      .delete ⟨1⟩ ⟨Database.numbers, [.int 6], some ⟨⟨TableFile.idOf ["t"], 0⟩, 1⟩⟩]
  let flushed := (Database.flushAll).run result.2
  have hrun : Run .permissive (Database.ofTable Database.numbers 9 2) result.1 result.2 :=
    Run.of_calls _ _ _ (by decide +kernel)
  have hfresh : (Database.ofTable Database.numbers 9 2).Fresh :=
    Database.Fresh.ofTable (by decide) (by decide) rfl
  have hflush : flushed = (.ok (), flushed.2) := by
    have hok : flushed.1 = .ok () := by decide +kernel
    rw [← hok]
  have hregistered : flushed.2.catalog.registration file.id = .ok ⟨file, "t", "", .none⟩ := by
    decide +kernel
  have hopened : TableFile.openIn [] "./t" Database.numbers 9 ⟨[[]], Keyed.empty⟩ =
      (.ok file, ⟨[[]], Keyed.empty.put ["t"] []⟩) := by decide +kernel
  have hfree {db : Database Unit} {txn : TxnId} {r : Registration} (hr : r.faults.read = false) :
      Database.Unhindered .permissive txn r (Database.scan .permissive r.file txn db).1 :=
    .inr ⟨fun _ _ => rfl, hr⟩
  obtain ⟨⟨pages, hchanged, hsame⟩, hsurvives⟩ := flushed_survives hfresh hrun
  obtain ⟨-, hagain, hreopens⟩ := hsurvives pages _ hchanged (hsame.symm.trans hflush)
  obtain ⟨blank, opened, hstart, hopen, hscans⟩ := hreopens ⟨file, "t", "", .none⟩ hregistered []
    "./t" _ _ rfl hopened Unit .permissive () 1 false "again" "" (by decide)
  have hfacts := hscans ⟨1⟩ ⟨8⟩ _ _ _ _ rfl rfl (hfree rfl) (hfree rfl)
  refine ⟨_, _, _, blank, opened, hrun, by decide +kernel, hflush, hagain, hstart, hopen, ?_⟩
  exact hfacts.trans (by decide +kernel)

end Run

end RowStore
