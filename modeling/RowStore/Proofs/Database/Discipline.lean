import RowStore.Proofs.Database.Cleaning
import RowStore.Proofs.Database.Locks

/-!
# Who may change a page

Whoever changed a resident page last was granted it for writing, and has not let go of its locks
since: pages change only where they were granted for writing, and a transaction that lets go has
dealt with all of its pages.
-/

namespace RowStore

namespace Database

variable {σ : Type} {locking : LockManager σ} {txn : TxnId} {page : PageId} {access : Access}
  {pinned : List Handle} {fetched : Except StorageError Frame}
  {db db' : Database (σ × LockLog)}

/-- Every resident page was granted for writing to the transaction that changed it last, and the
transaction has not let go of its locks since. -/
structure Guarded (db : Database (σ × LockLog)) : Prop where
  housed : db.cache.Housed
  held : ∀ (page : PageId) (frame : Frame) (txn : TxnId),
    db.cache.frames.get? page = some frame → frame.page.dirtiedBy txn = true →
    db.locks.2.Holds txn page .readWrite

namespace Guarded

/-- Nothing is changed in the pages, and no transaction lets go of its locks. -/
theorem of_sources (h : db.Guarded) (hhoused : db'.cache.Housed)
    (hlog : ∀ txn page access, db.locks.2.Holds txn page access →
      db'.locks.2.Holds txn page access)
    (hsource : ∀ page frame txn, db'.cache.frames.get? page = some frame →
      frame.page.dirtiedBy txn = true → ∃ old, db.cache.frames.get? page = some old ∧
        old.page.dirtiedBy txn = true) : db'.Guarded := by
  refine ⟨hhoused, ?_⟩
  intro page frame txn hf hdirty
  obtain ⟨old, hold, hdirty⟩ := hsource page frame txn hf hdirty
  exact hlog _ _ _ (h.held page old txn hold hdirty)

theorem fetch (h : db.Guarded)
    (hrun : (Database.fetch locking.logged txn page access pinned).run db = (fetched, db')) :
    db'.Guarded := by
  have hlog := log_fetch locking txn page access pinned db
  rw [hrun] at hlog
  refine ⟨housed_of_fetch h.housed hrun, ?_⟩
  intro q frame other hq hdirty
  rcases dirtiedBy_of_fetch hrun hq hdirty with ⟨old, hold, hdirty⟩ | ⟨rfl, rfl, rfl, found, rfl⟩
  · rw [hlog]
    exact (h.held q old other hold hdirty).cons (by simp)
  · rw [log_of_fetch hrun]
    exact LockLog.holds_cons_self _ _ _ _

theorem revise {edit : Page → Except StorageError (Page × Row)}
    {result : Except StorageError (Except StorageError Change)} (h : db.Guarded)
    (hedit : Page.KeepsShape edit)
    (hrun : (Database.revise locking.logged txn page edit).run db = (result, db')) :
    db'.Guarded := by
  obtain ⟨fetched, mid, hfetch, rfl | ⟨seen, p, row, rfl, -, hdb, hframes⟩⟩ :=
    revise_cases h.housed hrun
  · exact h.fetch hfetch
  · refine ⟨housed_of_revise h.housed hedit hrun, ?_⟩
    intro q frame other hq hdirty
    rw [hdb]
    rw [hframes] at hq
    split at hq
    · next heq =>
      obtain rfl := Option.some.inj hq
      obtain rfl := of_decide_eq_true ((Page.dirtiedBy_markDirty _ _ _).symm.trans hdirty)
      rw [heq, log_of_fetch hfetch]
      exact LockLog.holds_cons_self _ _ _ _
    · exact (h.fetch hfetch).held q frame other hq hdirty

theorem visits {α : Type} {x : Action (Database (σ × LockLog)) α} {visits : List Visit}
    (hvisits : Visits locking.logged txn x db visits) (h : db.Guarded) : (x.run db).2.Guarded :=
  hvisits.lift (R := fun db _ db' => db.Guarded → db'.Guarded) (fun _ h => h)
    (fun hfirst hrest h => hrest (hfirst h)) (fun _ _ h => ⟨h.housed, h.held⟩)
    (fun _ _ _ _ h => h.fetch rfl) (fun _ _ _ hedit h => h.revise hedit rfl) h

theorem of_cleans {pages : List PageId} (h : db.Guarded)
    (hcleans : Cache.Cleans pages db.cache db'.cache) (hlocks : db'.locks = db.locks) :
    db'.Guarded := by
  refine h.of_sources (hcleans.housed h.housed) (fun _ _ _ hheld => hlocks ▸ hheld) ?_
  intro page frame txn hf hdirty
  exact ⟨frame, (hcleans.unchanged hf (Page.isDirty_of_dirtiedBy hdirty)).2, hdirty⟩

theorem flushEach {pages : List PageId} {answer : Except StorageError Unit} (h : db.Guarded)
    (hrun : (Database.flushEach pages).run db = (answer, db')) : db'.Guarded := by
  obtain ⟨done, rest, -, hcleans, hlocks, -⟩ := cleans_flushEach h.housed hrun
  exact h.of_cleans hcleans hlocks

theorem flushPage {answer : Except StorageError Unit} (h : db.Guarded)
    (hrun : (Database.flushPage page).run db = (answer, db')) : db'.Guarded := by
  have hall : (Database.flushEach [page]).run db = (answer, db') := by
    rw [Database.flushEach, Action.run_bind, hrun]
    cases answer <;> rfl
  exact h.flushEach hall

theorem discard (h : db.Guarded) (page : PageId) :
    Guarded { db with cache := db.cache.drop page } := by
  have hframes {q : PageId} {frame : Frame}
      (hq : (db.cache.drop page).frames.get? q = some frame) :
      db.cache.frames.get? q = some frame := by
    rw [Cache.get?_drop] at hq
    split at hq
    · cases hq
    · exact hq
  exact ⟨fun q frame hq => h.housed q frame (hframes hq),
    fun q frame txn hq => h.held q frame txn (hframes hq)⟩

end Guarded

theorem Guarded.complete {capacity : Nat} {moves : List (Move (σ × LockLog))} {commit : Bool}
    {answer : Except StorageError Unit} (h : db.Guarded)
    (hrecords : db.cache.Records capacity moves)
    (hrun : (Database.complete locking.logged txn commit).run db = (answer, db')) :
    db'.Guarded := by
  have hdealt {answer : Except StorageError Unit} {mid : Database (σ × LockLog)}
      (hmid : Dealt txn db answer mid) : mid.Guarded := by
    refine h.of_sources hmid.housed (fun _ _ _ hheld => hmid.locks_eq ▸ hheld) ?_
    intro page frame other hf hdirty
    exact ⟨frame, hmid.unchanged page frame hf (Page.isDirty_of_dirtiedBy hdirty), hdirty⟩
  rcases complete_cases hrun with ⟨e, -, hdeal⟩ | ⟨mid, rfl, hdeal, rfl⟩
  · exact hdealt (dealt hrecords hdeal)
  · have hmid := dealt hrecords hdeal
    refine ⟨hmid.housed, ?_⟩
    intro page frame other hf hdirty
    -- the transaction that lets go has not changed any page that is left
    have hne : other ≠ txn := by
      rintro rfl
      exact hmid.done rfl page (Cache.changedBy_of_dirtiedBy hf hdirty)
    refine ((hdealt hmid).held page frame other hf hdirty).cons ?_
    simpa using hne.symm

/-- What a lock manager can rely on, whatever it answers. -/
structure Disciplined (locking : LockManager σ) (db : Database (σ × LockLog)) : Prop where
  held : ∀ (page : PageId) (frame : Frame) (txn : TxnId),
    db.cache.frames.get? page = some frame → frame.page.dirtiedBy txn = true →
    db.locks.2.Holds txn page .readWrite
  fetches : ∀ txn page access pinned, AsksFirst locking.logged txn page access pinned
  inserts : ∀ txn table row, ∃ visits,
    ByGrants locking txn (Database.insert locking.logged txn table row) db visits
  deletes : ∀ txn row, ∃ visits,
    ByGrants locking txn (Database.delete locking.logged txn row) db visits
  scans : ∀ txn table, ∃ visits,
    ByGrants locking txn (scanTable locking.logged txn table) db visits ∧
      ∀ yielded after, (scanTable locking.logged txn table).run db = (.ok yielded, after) →
        yielded.rows = Visit.rows visits
  asksForMore : ReadsByGrants locking (Cursor.hasNext locking.logged) (fun _ => []) db
  asksForRow : ReadsByGrants locking (Cursor.nextRow locking.logged) (fun row => [row]) db
  asksForNext : ReadsByGrants locking (Cursor.next? locking.logged) Option.toList db
  completes : ∀ txn commit, Ends locking.logged txn commit db

theorem Guarded.disciplined {capacity : Nat} {moves : List (Move (σ × LockLog))} (h : db.Guarded)
    (hrecords : db.cache.Records capacity moves) : db.Disciplined locking where
  held := h.held
  fetches := asksFirst locking.logged
  inserts txn table row := by
    have hinsert : Visiting locking.logged txn (Database.insert locking.logged txn table row) :=
      visiting_insert row table
    obtain ⟨visits, hvisits⟩ := hinsert db
    exact ⟨visits, byGrants hvisits h.housed⟩
  deletes txn row := by
    have hdelete : Visiting locking.logged txn (Database.delete locking.logged txn row) :=
      visiting_delete row
    obtain ⟨visits, hvisits⟩ := hdelete db
    exact ⟨visits, byGrants hvisits h.housed⟩
  scans txn table := by
    obtain ⟨visits, hvisits, hrows⟩ := visits_scanTable locking.logged txn table db
    exact ⟨visits, byGrants hvisits h.housed, hrows⟩
  asksForMore := readsByGrants (Cursor.reads_hasNext locking.logged) h.housed
  asksForRow := readsByGrants (Cursor.reads_nextRow locking.logged) h.housed
  asksForNext := readsByGrants (Cursor.reads_next? locking.logged) h.housed
  completes _ _ := ends hrecords

end Database

/-! ## Sessions -/

/-- A change that the holder of a page makes past the table that the page belongs to. -/
def Request.IsEdit : Request → Prop
  | .edit .. => True
  | _ => False

section

variable {σ : Type} {locking : LockManager σ} {start db : Database (σ × LockLog)}
  {steps : List (Exchange (σ × LockLog))} {capacity : Nat}

theorem Database.openTable_keeps {folder : Path} {file : String} {schema : Schema}
    {name primaryKey : String} {result : Except StorageError TableFile}
    {db' : Database (σ × LockLog)}
    (hrun : (Database.openTable folder file schema name primaryKey).run db = (result, db')) :
    db'.cache = db.cache ∧ db'.locks = db.locks := by
  simp only [Database.openTable, Database.openFile, Database.onVolume, Action.run_bind,
    Action.run_ask, Action.run_within] at hrun
  rcases hopen : TableFile.openIn folder file schema db.settings.pageSize db.volume with
    ⟨e | f, v⟩
  · simp only [hopen] at hrun
    obtain ⟨-, rfl⟩ := Prod.mk.inj hrun
    exact ⟨rfl, rfl⟩
  · simp only [hopen] at hrun
    obtain ⟨-, rfl⟩ := Prod.mk.inj hrun
    exact ⟨rfl, rfl⟩

theorem Database.Guarded.call {c : Call} {answer : Except StorageError Answer}
    {db' : Database (σ × LockLog)} {moves : List (Move (σ × LockLog))} (h : db.Guarded)
    (hrecords : db.cache.Records capacity moves)
    (hrun : (Database.perform locking.logged c).run db = (answer, db')) : db'.Guarded := by
  have hvisits {α : Type} {txn : TxnId} {x : Action (Database (σ × LockLog)) α}
      {result : Except StorageError α} (hx : Database.Visiting locking.logged txn x)
      (hrun : x.run db = (result, db')) : db'.Guarded := by
    obtain ⟨visits, hvisits⟩ := hx db
    have hafter := h.visits hvisits
    rwa [hrun] at hafter
  cases c with
  | insert txn table row =>
    obtain ⟨result, hrun, -⟩ := Action.run_map_eq hrun
    exact hvisits (Database.visiting_insert row.val table) hrun
  | delete txn row =>
    obtain ⟨result, hrun, -⟩ := Action.run_map_eq hrun
    exact hvisits (Database.visiting_delete row) hrun
  | scan txn table =>
    obtain ⟨result, hrun, -⟩ := Action.run_map_eq hrun
    obtain ⟨visits, hscan, -⟩ := Database.visits_scanTable locking.logged txn table db
    have hafter := h.visits hscan
    rwa [hrun] at hafter
  | fetch txn page access pinned =>
    obtain ⟨result, hrun, -⟩ := Action.run_map_eq hrun
    exact h.fetch hrun
  | release txn page =>
    obtain ⟨result, hrun, -⟩ := Action.run_map_eq hrun
    obtain ⟨-, rfl⟩ := Prod.mk.inj hrun
    exact ⟨h.housed, fun page frame txn hf hdirty =>
      (h.held page frame txn hf hdirty).cons (by simp)⟩
  | flushPage page =>
    obtain ⟨result, hrun, -⟩ := Action.run_map_eq hrun
    exact h.flushPage hrun
  | flushAll =>
    obtain ⟨result, hrun, -⟩ := Action.run_map_eq hrun
    have hflush : (Database.flushEach (db.cache.dirtyPages none)).run db = (result, db') := hrun
    exact h.flushEach hflush
  | flushPages txn =>
    obtain ⟨result, hrun, -⟩ := Action.run_map_eq hrun
    have hflush : (Database.flushEach (db.cache.dirtyPages (some txn))).run db =
        (result, db') := hrun
    exact h.flushEach hflush
  | discard page =>
    obtain ⟨result, hrun, -⟩ := Action.run_map_eq hrun
    obtain ⟨-, rfl⟩ := Prod.mk.inj hrun
    exact h.discard page
  | complete txn commit =>
    obtain ⟨result, hrun, -⟩ := Action.run_map_eq hrun
    exact h.complete hrecords hrun

theorem Exchange.Taken.guarded {s : Exchange (σ × LockLog)} {moves : List (Move (σ × LockLog))}
    (h : s.Taken locking.logged) (hrequest : ¬ s.request.IsEdit) (hbefore : s.before.Guarded)
    (hrecords : s.before.cache.Records capacity moves) : s.after.Guarded := by
  have hrun := h.run_eq
  cases hcase : s.request with
  | call c =>
    rw [hcase] at hrun
    obtain ⟨result, hrun, -⟩ := Action.run_map_eq hrun
    exact hbefore.call hrecords hrun
  | edit hd f =>
    rw [hcase] at hrequest
    exact (hrequest trivial).elim
  | openFile folder name schema pageSize =>
    rw [hcase] at hrun
    obtain ⟨result, hrun, -⟩ := Action.run_map_eq hrun
    obtain ⟨-, hafter⟩ := Prod.mk.inj hrun
    rw [← hafter]
    exact ⟨hbefore.housed, hbefore.held⟩
  | openTable folder file schema name primaryKey =>
    rw [hcase] at hrun
    obtain ⟨result, hrun, -⟩ := Action.run_map_eq hrun
    obtain ⟨hcache, hlocks⟩ := Database.openTable_keeps hrun
    exact ⟨hcache ▸ hbefore.housed, fun page frame txn hf hdirty =>
      hlocks ▸ hbefore.held page frame txn (hcache ▸ hf) hdirty⟩
  | addTable r =>
    rw [hcase] at hrun
    obtain ⟨-, hafter⟩ := Prod.mk.inj hrun
    rw [← hafter]
    exact ⟨hbefore.housed, hbefore.held⟩

theorem Session.guarded (h : Session locking.logged start steps db)
    (hstart : start.cache = Cache.ofCapacity capacity)
    (hsteps : ∀ s ∈ steps, ¬ s.request.IsEdit) : db.Guarded := by
  induction h with
  | nil =>
    refine ⟨hstart ▸ Cache.housed_ofCapacity capacity, ?_⟩
    intro page frame txn hf
    rw [hstart] at hf
    cases hf
  | cons hsession htaken ih =>
    obtain ⟨hs, hrest⟩ := List.forall_mem_cons.1 hsteps
    obtain ⟨moves, hrecords⟩ := hsession.records hstart
    exact htaken.guarded hs (ih hrest) hrecords

/-- Through any session from an empty cache in which pages are changed by inserting and deleting
only, with any tables and any failures, and whatever the lock manager answers. -/
theorem Session.lock_discipline (h : Session locking.logged start steps db)
    (hstart : start.cache = Cache.ofCapacity capacity)
    (hsteps : ∀ s ∈ steps, ¬ s.request.IsEdit) : db.Disciplined locking := by
  obtain ⟨moves, hrecords⟩ := h.records hstart
  exact (h.guarded hstart hsteps).disciplined hrecords

/-- A page may not be read. One transaction has committed, another one has changed this page, and a
third one fails when it comes to it. -/
theorem Session.lock_discipline_refused :
    ∃ start steps db, Session Ledger.manager.logged start steps db ∧
      db.Disciplined Ledger.manager ∧
      steps.map (fun s => s.answer.toOption.isSome) = [false, true, true, true, true] ∧
      db.cache.ChangedBy ⟨2⟩ ⟨TableFile.idOf ["t"], 1⟩ ∧
      db.locks.2.Holds ⟨2⟩ ⟨TableFile.idOf ["t"], 1⟩ .readWrite ∧
      db.locks.2.head? = some (.acquire ⟨3⟩ ⟨TableFile.idOf ["t"], 1⟩ .readOnly,
        .error (.invalidOperation .lockDenied)) := by
  let table := TableFile.idOf ["t"]
  let blank := Database.ofTable Database.numbers 9 2
  let start : Database (Ledger × LockLog) := ⟨blank.settings, blank.volume, blank.catalog,
    blank.cache, Ledger.empty.refuse ⟨table, 1⟩ .readOnly, []⟩
  let result := Database.converse Ledger.manager.logged [] start
    [.call (.insert ⟨1⟩ table (Database.number 5)),
      .call (.insert ⟨1⟩ table (Database.number 6)),
      .call (.complete ⟨1⟩ true),
      .call (.insert ⟨2⟩ table (Database.number 7)),
      .call (.insert ⟨3⟩ table (Database.number 8))]
  have hsession : Session Ledger.manager.logged start result.1 result.2 :=
    Session.nil.converse (by simp [Request.Permitted])
  have hstart : start.cache = Cache.ofCapacity 2 := rfl
  have hsteps : ∀ s ∈ result.1, ¬ s.request.IsEdit := by
    refine List.forall_mem_cons.2 ⟨id, List.forall_mem_cons.2 ⟨id, List.forall_mem_cons.2 ⟨id,
      List.forall_mem_cons.2 ⟨id, List.forall_mem_singleton.2 id⟩⟩⟩⟩
  have hdisciplined := Session.lock_discipline hsession hstart hsteps
  have hchanged : result.2.cache.ChangedBy ⟨2⟩ ⟨table, 1⟩ := by decide +kernel
  have hheld : result.2.locks.2.Holds ⟨2⟩ ⟨table, 1⟩ .readWrite := by
    obtain ⟨frame, hf, -, howner⟩ := hchanged
    exact hdisciplined.held _ frame _ hf (by simp [Page.dirtiedBy, howner])
  exact ⟨start, _, _, hsession, hdisciplined, by decide +kernel, hchanged, hheld, by decide +kernel⟩

end

end RowStore
