import RowStore.Proofs.Database.Run

/-!
# What a session is made of

Here nothing is assumed of the tables: files may be opened again with other schemas and page sizes,
registered over one another, and changed behind the back of the cache, and holders of a page may
change it. A session is a sequence of requests, each of which may fail. Every request comes down to
moves, in each of which one deed is done to the database; `Alters` says all that a deed does to the
cache, and `Writes` all that it does to the files.
-/

namespace RowStore

/-- A single thing that is done to a database. -/
inductive Deed where
  | fetch (txn : TxnId) (page : PageId) (access : Access) (pinned : List Handle)
  | edit (h : Handle) (f : Page → Page)
  | discard (page : PageId)
  | flush (page : PageId)
  | append (file : TableFile)
  | release (txn : TxnId) (page : PageId)
  | releaseAll (txn : TxnId)
  | openFile (folder : Path) (name : String) (schema : Schema) (pageSize : Nat)
  | register (r : Registration)

/-- A page keeps its identifier, its schema and its layout for as long as it lives. -/
structure Page.SameShape (p q : Page) : Prop where
  id_eq : p.id = q.id
  schema_eq : p.schema = q.schema
  layout_eq : p.layout = q.layout

/-- The holder of a page changes it, in its rows and marks only. -/
def Cache.MayEdit (c : Cache) (h : Handle) (f : Page → Page) : Prop :=
  ∀ p, c.page? h = some p → (f p).SameShape p

namespace Deed

variable {σ : Type}

def perform (locking : LockManager σ) : Deed → Action (Database σ) Unit
  | .fetch txn page access pinned =>
    (fun _ => ()) <$> Database.fetch locking txn page access pinned
  | .edit h f => Database.onCache (.update fun c => c.modify h f)
  | .discard page => Database.discard page
  | .flush page => Database.flushPage page
  | .append file => (fun _ => ()) <$> Database.allocate file
  | .release txn page => Database.release locking txn page
  | .releaseAll txn => Database.onLocks (.update (locking.releaseAll txn))
  | .openFile folder name schema pageSize =>
    (fun _ => ()) <$> Database.openFile folder name schema pageSize
  | .register r => Database.addTable r

/-- What is asked of the holder of a page. -/
def Permitted (c : Cache) : Deed → Prop
  | .edit h f => c.MayEdit h f
  | _ => True

end Deed

/-- One deed, with the databases before and after it. -/
structure Move (σ : Type) where
  before : Database σ
  deed : Deed
  answer : Except StorageError Unit
  after : Database σ

namespace Move

variable {σ : Type}

structure Made (locking : LockManager σ) (m : Move σ) : Prop where
  run_eq : (m.deed.perform locking).run m.before = (m.answer, m.after)
  permitted : m.deed.Permitted m.before.cache

/-- The page that was fetched. -/
def got? (m : Move σ) : Option PageId :=
  match m.deed, m.answer with
  | .fetch _ page _ _, .ok _ => some page
  | _, _ => none

/-- The page that was fetched and had to be read for it. -/
def loaded? (m : Move σ) : Option PageId :=
  m.got?.filter fun page => !m.before.cache.isResident page

/-- The page that was resident and discarded. -/
def dropped? (m : Move σ) : Option PageId :=
  match m.deed with
  | .discard page => if m.before.cache.isResident page then some page else none
  | _ => none

end Move

namespace Cache

variable {c : Cache} {page : PageId} {frame : Frame}

/-- The frame under a page is one of this page. -/
def Housed (c : Cache) : Prop :=
  ∀ (page : PageId) (frame : Frame), c.frames.get? page = some frame →
    frame.handle.page = page ∧ frame.page.id = page

theorem page?_of_resident (hf : c.frames.get? page = some frame)
    (hh : frame.handle.page = page) : c.page? frame.handle = some frame.page := by
  simp [page?, hh, hf]

theorem housed_ofCapacity (capacity : Nat) : (ofCapacity capacity).Housed := by
  intro page frame hf
  cases hf

theorem sameShape_touch (txn : TxnId) (access : Access) (p : Page) :
    (touch txn access p).SameShape p := by
  unfold touch
  split
  · rw [Page.markDirty_eq]
    exact ⟨rfl, rfl, rfl⟩
  · exact ⟨rfl, rfl, rfl⟩

/-- A frame of an edited cache was there before, with a page of the same shape. -/
theorem MayEdit.get?_modify {h : Handle} {f : Page → Page} (hf : c.MayEdit h f)
    (hget : (c.modify h f).frames.get? page = some frame) :
    ∃ old, c.frames.get? page = some old ∧ old.handle = frame.handle ∧
      frame.page.SameShape old.page := by
  simp only [modify, Keyed.get?_adjust] at hget
  split at hget
  · next hpage =>
    obtain ⟨old, hold, rfl⟩ := Option.map_eq_some_iff.1 hget
    refine ⟨old, hold, ?_⟩
    split
    · next hh =>
      refine ⟨rfl, hf old.page ?_⟩
      rw [hpage] at hold
      simp [page?, hold, hh]
    · exact ⟨rfl, rfl, rfl, rfl⟩
  · exact ⟨frame, hget, rfl, rfl, rfl, rfl⟩

end Cache

namespace Database

variable {σ : Type} {locking : LockManager σ} {txn : TxnId} {page : PageId} {access : Access}
  {pinned : List Handle} {db db' : Database σ}

theorem resident_of_fetch {frame : Frame}
    (h : (fetch locking txn page access pinned).run db = (.ok frame, db')) :
    db'.cache.frames.get? page = some frame := by
  rcases fetch_cases h with ⟨e, he, -⟩ | ⟨old, hf, hanswer, hdb⟩ |
    ⟨p, roomy, -, -, -, hanswer, hdb⟩
  · cases he
  · rw [hdb, Except.ok.inj hanswer]
    simp [Cache.request, hf, Keyed.get?_adjust]
  · rw [hdb, Except.ok.inj hanswer]
    exact Keyed.get?_put_self _ _ _

end Database

theorem TableFile.read_of_openIn (folder : Path) (name : String) (schema : Schema)
    (pageSize : Nat) (v : Volume) (path : Path) :
    (openIn folder name schema pageSize v).2.read path = v.read path := by
  unfold openIn
  cases Layout.ofSchema schema pageSize with
  | error e => rfl
  | ok layout =>
    cases hopen : v.openFile folder name with
    | error e => rfl
    | ok opened =>
      have hread := Volume.read_of_openFile hopen path
      by_cases heven : opened.2.length opened.1 % pageSize = 0
      · simpa [heven] using hread
      · simpa [heven] using hread

/-- Opening a file makes no folder. -/
theorem TableFile.folders_of_openIn (folder : Path) (name : String) (schema : Schema)
    (pageSize : Nat) (v : Volume) :
    (openIn folder name schema pageSize v).2.folders = v.folders := by
  unfold openIn
  cases Layout.ofSchema schema pageSize with
  | error e => rfl
  | ok layout =>
    cases hopen : v.openFile folder name with
    | error e => rfl
    | ok opened =>
      have hfolders := Volume.folders_of_openFile hopen
      by_cases heven : opened.2.length opened.1 % pageSize = 0
      · simpa [heven] using hfolders
      · simpa [heven] using hfolders

/-- What a deed leaves of the catalog: only registering a table changes it. -/
def Deed.enter (c : Catalog) : Deed → Catalog
  | .register r => c.add r
  | _ => c

namespace Move

variable {σ : Type} {locking : LockManager σ} {m : Move σ}

/-- What a move does to the cache. -/
inductive Alters (m : Move σ) : Prop
  | idle : m.got? = none → m.dropped? = none → m.after.cache = m.before.cache → Alters m
  | edited (h : Handle) (f : Page → Page) : m.got? = none → m.dropped? = none →
      m.before.cache.MayEdit h f → m.after.cache = m.before.cache.modify h f → Alters m
  | discarded (page : PageId) : m.deed = .discard page →
      m.after.cache = m.before.cache.drop page → Alters m
  | served (txn : TxnId) (page : PageId) (access : Access) (frame : Frame) : m.got? = some page →
      m.dropped? = none → m.before.cache.frames.get? page = some frame →
      m.after.cache = (m.before.cache.request txn page access).2 → Alters m
  | loaded (txn : TxnId) (page : PageId) (access : Access) (pinned : List Handle) (p : Page)
      (roomy : Cache) : m.deed = .fetch txn page access pinned → m.answer = .ok () →
      m.before.cache.frames.get? page = none →
      m.before.catalog.stored? m.before.volume page = some p →
      m.before.cache.makeRoom pinned = .ok roomy →
      m.after.cache = (roomy.install page (Cache.touch txn access p)).2 → Alters m

theorem Made.alters_fetch {txn : TxnId} {page : PageId} {access : Access} {pinned : List Handle}
    (h : m.Made locking) (hdeed : m.deed = .fetch txn page access pinned) : m.Alters := by
  have hrun := h.run_eq
  rw [hdeed] at hrun
  obtain ⟨result, hfetch, hanswer⟩ := Action.run_map_eq hrun
  have hdropped : m.dropped? = none := by simp [dropped?, hdeed]
  rcases Database.fetch_cases hfetch with ⟨e, rfl, hdb⟩ | ⟨frame, hf, rfl, hdb⟩ |
    ⟨p, roomy, hf, hread, hroom, rfl, hdb⟩
  · refine .idle ?_ hdropped (by rw [hdb])
    simp [got?, hdeed, hanswer, Except.map]
  · refine .served txn page access frame ?_ hdropped hf (congrArg Database.cache hdb)
    simp [got?, hdeed, hanswer, Except.map]
  · exact .loaded txn page access pinned p roomy hdeed hanswer hf hread hroom
      (congrArg Database.cache hdb)

theorem Made.alters_flush {page : PageId} (h : m.Made locking) (hdeed : m.deed = .flush page) :
    m.Alters := by
  have hgot : m.got? = none := by simp [got?, hdeed]
  have hdropped : m.dropped? = none := by simp [dropped?, hdeed]
  have hrun := h.run_eq
  rw [hdeed] at hrun
  rcases Database.flushPage_cases hrun with ⟨-, -, hdb⟩ |
    ⟨frame, -, ⟨e, -, -, hdb⟩ | ⟨w, -, -, hdb⟩⟩
  · exact .idle hgot hdropped (congrArg Database.cache hdb)
  · exact .idle hgot hdropped (congrArg Database.cache hdb)
  · exact .edited frame.handle .markClean hgot hdropped (fun p _ => ⟨rfl, rfl, rfl⟩)
      (congrArg Database.cache hdb)

/-- All that is done to the cache: most deeds leave it alone. -/
theorem Made.alters (h : m.Made locking) : m.Alters := by
  have hrun := h.run_eq
  cases hdeed : m.deed with
  | fetch txn page access pinned => exact h.alters_fetch hdeed
  | flush page => exact h.alters_flush hdeed
  | edit hd f =>
    rw [hdeed] at hrun
    have hpermitted := h.permitted
    rw [hdeed] at hpermitted
    exact .edited hd f (by simp [got?, hdeed]) (by simp [dropped?, hdeed]) hpermitted
      (congrArg (fun r => r.2.cache) hrun).symm
  | discard page =>
    rw [hdeed] at hrun
    exact .discarded page hdeed (congrArg (fun r => r.2.cache) hrun).symm
  | append | openFile =>
    rw [hdeed] at hrun
    obtain ⟨result, hrun, -⟩ := Action.run_map_eq hrun
    exact .idle (by simp [got?, hdeed]) (by simp [dropped?, hdeed])
      (congrArg (fun r => r.2.cache) hrun).symm
  | release | releaseAll | register =>
    rw [hdeed] at hrun
    exact .idle (by simp [got?, hdeed]) (by simp [dropped?, hdeed])
      (congrArg (fun r => r.2.cache) hrun).symm

/-- The move that a deed makes. -/
def of (locking : LockManager σ) (db : Database σ) (deed : Deed) : Move σ :=
  ⟨db, deed, ((deed.perform locking).run db).1, ((deed.perform locking).run db).2⟩

theorem after_of_fetch (locking : LockManager σ) (db : Database σ) (txn : TxnId) (page : PageId)
    (access : Access) (pinned : List Handle) :
    (of locking db (.fetch txn page access pinned)).after =
      ((Database.fetch locking txn page access pinned).run db).2 := by
  rw [of, Deed.perform, Action.run_map]

theorem made_of_fetch (locking : LockManager σ) (db : Database σ) (txn : TxnId) (page : PageId)
    (access : Access) (pinned : List Handle) :
    (of locking db (.fetch txn page access pinned)).Made locking := ⟨rfl, trivial⟩

/-- The page whose image was stored, and the image. -/
def stores? (m : Move σ) : Option (PageId × Bytes) :=
  match m.deed, m.answer with
  | .flush page, .ok _ =>
    (m.before.cache.frames.get? page).map fun frame => (page, frame.page.encode)
  | .append file, .ok _ => some ((file.allocate m.before.volume).1, Bytes.zeros file.pageSize)
  | _, _ => none

/-- What a move does to the files. -/
inductive Writes (m : Move σ) : Prop
  | nothing : m.stores? = none →
      (∀ path, m.after.volume.read path = m.before.volume.read path) → Writes m
  | flushed (page : PageId) (frame : Frame) (r : Registration) : m.deed = .flush page →
      m.stores? = some (page, frame.page.encode) →
      m.before.cache.frames.get? page = some frame →
      m.before.catalog.registration page.table = .ok r →
      r.file.writePage m.before.volume frame.page = .ok m.after.volume → Writes m
  | appended (file : TableFile) : m.deed = .append file →
      m.stores? = some ((file.allocate m.before.volume).1, Bytes.zeros file.pageSize) →
      m.after.volume = (file.allocate m.before.volume).2 → Writes m

theorem Made.writes_flush {page : PageId} (h : m.Made locking) (hdeed : m.deed = .flush page) :
    m.Writes := by
  have hrun := h.run_eq
  rw [hdeed] at hrun
  rcases Database.flushPage_cases hrun with ⟨hf, -, hdb⟩ |
    ⟨frame, hf, ⟨e, -, hanswer, hdb⟩ | ⟨w, hw, hanswer, hdb⟩⟩
  · refine .nothing ?_ fun path => by rw [hdb]
    unfold stores?
    split <;> simp_all
  · refine .nothing ?_ fun path => by rw [hdb]
    simp [stores?, hdeed, hanswer]
  · obtain ⟨r, hr, hwrite⟩ := Database.store_eq_ok hw
    refine .flushed page frame r hdeed ?_ hf hr ?_
    · simp [stores?, hdeed, hanswer, hf]
    · rw [hdb]
      exact hwrite

/-- All that is done to the files: pages are flushed and appended. -/
theorem Made.writes (h : m.Made locking) : m.Writes := by
  have hrun := h.run_eq
  cases hdeed : m.deed with
  | flush page => exact h.writes_flush hdeed
  | fetch txn page access pinned =>
    rw [hdeed] at hrun
    obtain ⟨result, hfetch, -⟩ := Action.run_map_eq hrun
    refine .nothing (by simp [stores?, hdeed]) fun path => ?_
    rw [(Database.catalog_of_fetch hfetch).2]
  | append file =>
    rw [hdeed] at hrun
    obtain ⟨hanswer, hdb⟩ := Prod.mk.inj hrun
    exact .appended file hdeed (by simp [stores?, hdeed, ← hanswer])
      (congrArg Database.volume hdb).symm
  | openFile folder name schema pageSize =>
    rw [hdeed] at hrun
    obtain ⟨result, hrun, -⟩ := Action.run_map_eq hrun
    obtain ⟨-, hdb⟩ := Prod.mk.inj hrun
    refine .nothing (by simp [stores?, hdeed]) fun path => ?_
    rw [← hdb]
    exact TableFile.read_of_openIn _ _ _ _ _ _
  | edit | discard | release | releaseAll | register =>
    rw [hdeed] at hrun
    obtain ⟨-, hdb⟩ := Prod.mk.inj hrun
    refine .nothing (by simp [stores?, hdeed]) fun path => ?_
    rw [← hdb]

/-- No file gets shorter. -/
theorem Writes.length_le (h : m.Writes) (path : Path) :
    m.before.volume.length path ≤ m.after.volume.length path := by
  cases h with
  | nothing _ hread => exact Nat.le_of_eq (congrArg List.length (hread path)).symm
  | flushed page frame r _ _ _ _ hwrite =>
    obtain ⟨-, hvolume⟩ := TableFile.writePage_eq_ok.1 hwrite
    rw [hvolume]
    exact Volume.length_le_writeAt _ _ _ _ _
  | appended file _ _ hvolume =>
    rw [hvolume]
    exact Volume.length_le_writeAt _ _ _ _ _

theorem Made.catalog_eq (h : m.Made locking) :
    m.after.catalog = m.deed.enter m.before.catalog := by
  have hrun := h.run_eq
  cases hdeed : m.deed with
  | fetch txn page access pinned =>
    rw [hdeed] at hrun
    obtain ⟨result, hfetch, -⟩ := Action.run_map_eq hrun
    exact (Database.catalog_of_fetch hfetch).1
  | flush page =>
    rw [hdeed] at hrun
    rcases Database.flushPage_cases hrun with ⟨-, -, hdb⟩ |
      ⟨frame, -, ⟨e, -, -, hdb⟩ | ⟨w, -, -, hdb⟩⟩
    all_goals
      rw [hdb]
      rfl
  | append | openFile =>
    rw [hdeed] at hrun
    obtain ⟨result, hrun, -⟩ := Action.run_map_eq hrun
    exact (congrArg (fun r => r.2.catalog) hrun).symm
  | edit | discard | release | releaseAll | register =>
    rw [hdeed] at hrun
    exact (congrArg (fun r => r.2.catalog) hrun).symm

/-- A move registers a table or leaves the catalog as it was. -/
theorem Made.catalog_cases (h : m.Made locking) :
    (∃ r, m.deed = .register r ∧ m.after.catalog = m.before.catalog.add r) ∨
      (∀ r, m.deed ≠ .register r) ∧ m.after.catalog = m.before.catalog := by
  have hcatalog := h.catalog_eq
  cases hdeed : m.deed with
  | register r =>
    rw [hdeed] at hcatalog
    exact .inl ⟨r, rfl, hcatalog⟩
  | fetch | edit | discard | flush | append | release | releaseAll | openFile =>
    rw [hdeed] at hcatalog
    exact .inr ⟨by simp, hcatalog⟩

/-- No move makes a folder. -/
theorem Made.folders_eq (h : m.Made locking) :
    m.after.volume.folders = m.before.volume.folders := by
  have hrun := h.run_eq
  cases hdeed : m.deed with
  | fetch txn page access pinned =>
    rw [hdeed] at hrun
    obtain ⟨result, hfetch, -⟩ := Action.run_map_eq hrun
    rw [(Database.catalog_of_fetch hfetch).2]
  | flush page =>
    rw [hdeed] at hrun
    rcases Database.flushPage_cases hrun with ⟨-, -, hdb⟩ |
      ⟨frame, -, ⟨e, -, -, hdb⟩ | ⟨w, hw, -, hdb⟩⟩
    · rw [hdb]
    · rw [hdb]
    · obtain ⟨r, -, hwrite⟩ := Database.store_eq_ok hw
      obtain ⟨-, rfl⟩ := TableFile.writePage_eq_ok.1 hwrite
      rw [hdb]
      rfl
  | openFile folder name schema pageSize =>
    rw [hdeed] at hrun
    obtain ⟨result, hrun, -⟩ := Action.run_map_eq hrun
    obtain ⟨-, hdb⟩ := Prod.mk.inj hrun
    rw [← hdb]
    exact TableFile.folders_of_openIn _ _ _ _ _
  | append file =>
    rw [hdeed] at hrun
    obtain ⟨result, hrun, -⟩ := Action.run_map_eq hrun
    exact (congrArg (fun r => r.2.volume.folders) hrun).symm
  | edit | discard | release | releaseAll | register =>
    rw [hdeed] at hrun
    exact (congrArg (fun r => r.2.volume.folders) hrun).symm

end Move

/-- The moves made from a database on, the last one first, and the database they lead to. -/
inductive Trace {σ : Type} (locking : LockManager σ) (start : Database σ) :
    List (Move σ) → Database σ → Prop
  | nil : Trace locking start [] start
  | cons {moves : List (Move σ)} {m : Move σ} : Trace locking start moves m.before →
      m.Made locking → Trace locking start (m :: moves) m.after

namespace Trace

variable {σ : Type} {locking : LockManager σ} {start mid db : Database σ}
  {earlier later moves : List (Move σ)}

theorem trans (h : Trace locking start earlier mid) (h' : Trace locking mid later db) :
    Trace locking start (later ++ earlier) db := by
  induction h' with
  | nil => exact h
  | cons _ hmade ih => exact ih.cons hmade

theorem made (h : Trace locking start moves db) : ∀ m ∈ moves, m.Made locking := by
  induction h with
  | nil => simp
  | cons _ hmade ih => exact List.forall_mem_cons.2 ⟨hmade, ih⟩

theorem folders_eq (h : Trace locking start moves db) :
    db.volume.folders = start.volume.folders := by
  induction h with
  | nil => rfl
  | cons _ hmade ih => exact hmade.folders_eq.trans ih

end Trace

namespace Cache

variable {c : Cache} {page : PageId} {frame : Frame}

theorem get?_request (txn : TxnId) (access : Access) (hf : c.frames.get? page = some frame)
    (q : PageId) : (c.request txn page access).2.frames.get? q =
      if q = page then some { frame with page := touch txn access frame.page }
      else c.frames.get? q := by
  simp only [request, hf, Keyed.get?_adjust]
  split
  · next hq => simp [hq, hf]
  · rfl

theorem get?_drop (c : Cache) (page q : PageId) :
    (c.drop page).frames.get? q = if q = page then none else c.frames.get? q :=
  Keyed.get?_erase _ _ _

theorem get?_install (c : Cache) (page : PageId) (p : Page) (q : PageId) :
    (c.install page p).2.frames.get? q =
      if q = page then some ⟨⟨page, c.nextSerial⟩, p⟩ else c.frames.get? q :=
  Keyed.get?_put _ _ _ _

/-- What stays when room is made was there. -/
theorem get?_of_makeRoom {roomy : Cache} {pinned : List Handle}
    (h : c.makeRoom pinned = .ok roomy) (hget : roomy.frames.get? page = some frame) :
    c.frames.get? page = some frame := by
  rcases makeRoom_eq_ok h with ⟨-, rfl⟩ | ⟨victim, old, -, -, rfl⟩
  · exact hget
  · have hget : (c.drop victim).frames.get? page = some frame := hget
    rw [get?_drop] at hget
    split at hget
    · cases hget
    · exact hget

end Cache

namespace Move

variable {σ : Type} {m : Move σ} {page : PageId} {frame : Frame}

/-- A resident copy of a page was resident before, or it was just read. -/
theorem Alters.source (h : m.Alters) (hget : m.after.cache.frames.get? page = some frame) :
    (∃ old, m.before.cache.frames.get? page = some old ∧ old.handle = frame.handle ∧
      frame.page.SameShape old.page) ∨
    m.loaded? = some page ∧ frame.handle.page = page ∧
      ∃ p, m.before.catalog.stored? m.before.volume page = some p ∧ frame.page.SameShape p := by
  cases h with
  | idle _ _ hcache =>
    rw [hcache] at hget
    exact .inl ⟨frame, hget, rfl, rfl, rfl, rfl⟩
  | edited h f _ _ hf hcache =>
    rw [hcache] at hget
    exact .inl (hf.get?_modify hget)
  | discarded q _ hcache =>
    rw [hcache, Cache.get?_drop] at hget
    split at hget
    · cases hget
    · exact .inl ⟨frame, hget, rfl, rfl, rfl, rfl⟩
  | served txn q access old _ _ hf hcache =>
    rw [hcache, Cache.get?_request txn access hf] at hget
    split at hget
    · next hq =>
      obtain rfl := Option.some.inj hget
      exact .inl ⟨old, hq ▸ hf, rfl, Cache.sameShape_touch txn access old.page⟩
    · exact .inl ⟨frame, hget, rfl, rfl, rfl, rfl⟩
  | loaded txn q access pinned p roomy hdeed hanswer hf hread hroom hcache =>
    rw [hcache, Cache.get?_install] at hget
    split at hget
    · next hq =>
      obtain rfl := Option.some.inj hget
      subst hq
      refine .inr ⟨?_, rfl, p, hread, Cache.sameShape_touch txn access p⟩
      simp [loaded?, got?, hdeed, hanswer, Cache.isResident, Keyed.contains, hf]
    · exact .inl ⟨frame, Cache.get?_of_makeRoom hroom hget, rfl, rfl, rfl, rfl⟩

theorem Alters.housed (h : m.Alters) (hbefore : m.before.cache.Housed) : m.after.cache.Housed := by
  intro page frame hget
  rcases h.source hget with ⟨old, hold, hhandle, hshape⟩ | ⟨-, hhandle, p, hread, hshape⟩
  · obtain ⟨hpage, hid⟩ := hbefore page old hold
    exact ⟨hhandle ▸ hpage, hshape.id_eq.trans hid⟩
  · exact ⟨hhandle, hshape.id_eq.trans (Catalog.id_of_stored? hread)⟩

end Move

theorem Trace.housed {σ : Type} {locking : LockManager σ} {start db : Database σ}
    {moves : List (Move σ)} (h : Trace locking start moves db) (hstart : start.cache.Housed) :
    db.cache.Housed := by
  induction h with
  | nil => exact hstart
  | cons _ hmade ih => exact hmade.alters.housed ih

end RowStore
