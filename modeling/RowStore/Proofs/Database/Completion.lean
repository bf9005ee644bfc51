import RowStore.Proofs.Database.Images
import RowStore.Proofs.Database.Replacement

/-!
# Ending a transaction

The pages that matter are the resident ones that differ from their stored images and that the
transaction changed last. A commit stores these, each over its own bytes, and leaves them clean; an
abort takes these out of the cache, after which a fetch reads the image that was stored last.
Neither changes another page, another byte, what the cache counted, or the order in which pages are
given up.
-/

namespace RowStore

/-- A frame whose page was stored: the page is no longer changed, and all else is as it was. -/
def Frame.cleaned (f : Frame) : Frame := { f with page := { f.page with status := .clean } }

@[simp] theorem Frame.encode_cleaned (f : Frame) : f.cleaned.page.encode = f.page.encode := rfl

@[simp] theorem Frame.cleaned_cleaned (f : Frame) : f.cleaned.cleaned = f.cleaned := rfl

namespace Cache

variable {c d : Cache} {page q : PageId} {pages : List PageId} {frame : Frame} {txn : TxnId}

/-- A resident page that differs from its stored image and that the transaction changed last. -/
def ChangedBy (c : Cache) (txn : TxnId) (page : PageId) : Prop :=
  ∃ frame, c.frames.get? page = some frame ∧ frame.page.isDirty = true ∧
    frame.page.dirtier? = some txn

theorem changedBy_iff : c.ChangedBy txn page ↔ (c.frames.get? page).any
    (fun frame => frame.page.isDirty && frame.page.dirtiedBy txn) = true := by
  simp [ChangedBy, Option.any_eq_true, Page.dirtiedBy]

instance : Decidable (c.ChangedBy txn page) := decidable_of_iff _ changedBy_iff.symm

theorem mem_dirtyPages_some (h : c.frames.WellKeyed) :
    page ∈ c.dirtyPages (some txn) ↔ c.ChangedBy txn page := by
  simp [mem_dirtyPages h, ChangedBy]

/-- The pages are those that the transaction changed last, in some order. -/
def AllChangedBy (c : Cache) (txn : TxnId) (pages : List PageId) : Prop :=
  ∀ page, page ∈ pages ↔ c.ChangedBy txn page

theorem allChangedBy_dirtyPages (h : c.frames.WellKeyed) (txn : TxnId) :
    c.AllChangedBy txn (c.dirtyPages (some txn)) := fun _ => mem_dirtyPages_some h

/-- Some pages are taken out. The ranking forgets them and keeps the others in their order. -/
structure Without (pages : List PageId) (c d : Cache) : Prop where
  frames : ∀ q, d.frames.get? q = if q ∈ pages then none else c.frames.get? q
  standings : ∀ q, d.ranking.standings.get? q =
    if q ∈ pages then none else c.ranking.standings.get? q
  candidates : d.ranking.candidates = c.ranking.candidates.filter (· ∉ pages)
  others : d = { c with frames := d.frames, ranking := d.ranking, setAside := d.setAside }

theorem without_dropAll (h : c.ranking.WellFormed) (pages : List PageId) :
    Without pages c (pages.foldl drop c) := by
  induction pages generalizing c with
  | nil => exact ⟨fun _ => rfl, fun _ => rfl, (List.filter_eq_self.2 (by simp)).symm, rfl⟩
  | cons page pages ih =>
    have hrest := ih (c := c.drop page) (h.remove page)
    rw [List.foldl_cons]
    refine ⟨?_, ?_, ?_, hrest.others⟩
    · intro q
      rw [hrest.frames, get?_drop]
      grind
    · intro q
      have hremove : (c.drop page).ranking.standings.get? q =
          if q = page then none else c.ranking.standings.get? q := Ranking.get?_remove _ _ _
      rw [hrest.standings, hremove]
      grind
    · have hremove : (c.drop page).ranking.candidates = c.ranking.candidates.filter (· ≠ page) :=
        h.candidates_remove page
      rw [hrest.candidates, hremove, List.filter_filter]
      apply List.filter_congr
      grind

theorem Without.unchanged {q : PageId} {frame : Frame} (h : Without pages c d)
    (hq : d.frames.get? q = some frame) : q ∉ pages ∧ c.frames.get? q = some frame := by
  rw [h.frames] at hq
  split at hq
  · cases hq
  · next hnot => exact ⟨hnot, hq⟩

theorem size_dropAll_le (c : Cache) (pages : List PageId) : (pages.foldl drop c).size ≤ c.size := by
  induction pages generalizing c with
  | nil => exact Nat.le_refl _
  | cons page pages ih => exact Nat.le_trans (ih (c.drop page)) (Keyed.size_erase_le _ _)

/-- If one of the pages was resident, there is room afterwards. -/
theorem size_dropAll_lt (hf : c.frames.get? page = some frame) (hpage : page ∈ pages) :
    (pages.foldl drop c).size < c.size := by
  induction pages generalizing c with
  | nil => cases hpage
  | cons first pages ih =>
    rw [List.foldl_cons]
    by_cases heq : page = first
    · exact Nat.lt_of_le_of_lt (size_dropAll_le _ _) (Keyed.size_erase_lt (heq ▸ hf))
    · have hpage := (List.mem_cons.1 hpage).resolve_left heq
      have hf : (c.drop first).frames.get? page = some frame := by rwa [get?_drop, if_neg heq]
      exact Nat.lt_of_lt_of_le (ih hf hpage) (Keyed.size_erase_le _ _)

end Cache

/-- The page has this byte of a file. -/
def Catalog.Covers (c : Catalog) (page : PageId) (path : Path) (i : Nat) : Prop :=
  ∃ r, c.registration page.table = .ok r ∧ r.file.path = path ∧
    page.offset r.file.pageSize ≤ i ∧ i < page.offset r.file.pageSize + r.file.pageSize

namespace Database

variable {σ : Type} {locking : LockManager σ} {txn : TxnId} {page : PageId}
  {pages : List PageId} {db mid db' : Database σ}

/-! ## Storing pages -/

/-- The resident ones of some pages are stored over their own bytes and clean, and all else is as it
was. -/
structure Written (pages : List PageId) (db db' : Database σ) : Prop where
  frames : ∀ q, db'.cache.frames.get? q =
    (db.cache.frames.get? q).map fun frame => if q ∈ pages then frame.cleaned else frame
  image_eq : ∀ (q : PageId) (frame : Frame), q ∈ pages → db.cache.frames.get? q = some frame →
    db.catalog.image? db'.volume q = some frame.page.encode
  image_other : ∀ q, q ∉ pages → db.catalog.image? db'.volume q = db.catalog.image? db.volume q
  byte_eq : ∀ path i, (∀ q ∈ pages, ¬ db.catalog.Covers q path i) →
    (db'.volume.read path)[i]? = (db.volume.read path)[i]?
  length_eq : ∀ path, db'.volume.length path = db.volume.length path
  others : db' = { db with
    volume := db'.volume
    cache := { db.cache with frames := db'.cache.frames, setAside := db'.cache.setAside } }

theorem Written.refl (db : Database σ) : Written [] db db where
  frames q := by simp
  image_eq _ _ hq := by simp at hq
  image_other _ _ := rfl
  byte_eq _ _ _ := rfl
  length_eq _ := rfl
  others := rfl

theorem Written.catalog_eq (h : Written pages db db') : db'.catalog = db.catalog := by rw [h.others]

theorem Written.cons (h : Written [page] db mid) (h' : Written pages mid db') :
    Written (page :: pages) db db' := by
  have hcatalog := h.catalog_eq
  have hother := h'.image_other
  have hstored := h'.image_eq
  have hbyte := h'.byte_eq
  rw [hcatalog] at hother hstored hbyte
  refine ⟨?_, ?_, ?_, ?_, fun path => (h'.length_eq path).trans (h.length_eq path), ?_⟩
  · intro q
    rw [h'.frames, h.frames, Option.map_map]
    congr 1
    funext frame
    grind [Frame.cleaned_cleaned]
  · intro q frame hq hf
    by_cases hqs : q ∈ pages
    · have hmid := h.frames q
      rw [hf, Option.map_some] at hmid
      rw [hstored q _ hqs hmid]
      split <;> rfl
    · rw [hother q hqs]
      have hq := (List.mem_cons.1 hq).resolve_right hqs
      exact h.image_eq q frame (by simp [hq]) hf
  · intro q hq
    obtain ⟨hne, hqs⟩ := not_or.1 (mt List.mem_cons.2 hq)
    rw [hother q hqs]
    exact h.image_other q (by simp [hne])
  · intro path i hcovers
    obtain ⟨hpage, hpages⟩ := List.forall_mem_cons.1 hcovers
    rw [hbyte path i hpages]
    exact h.byte_eq path i (by simpa using hpage)
  · rw [h'.others, h.others]

theorem Written.settled (h : Written pages db db') (hdb : db.Settled) : db'.Settled := by
  have hsource (q : PageId) (frame : Frame) (hq : db'.cache.frames.get? q = some frame) :
      ∃ old, db.cache.frames.get? q = some old ∧ old.handle = frame.handle ∧
        frame.page.SameShape old.page := by
    rw [h.frames] at hq
    obtain ⟨old, hold, rfl⟩ := Option.map_eq_some_iff.1 hq
    refine ⟨old, hold, ?_⟩
    split <;> exact ⟨rfl, rfl, rfl, rfl⟩
  refine ⟨h.catalog_eq ▸ hdb.tables, ?_, ?_⟩
  · intro q frame hq
    obtain ⟨old, hold, hhandle, hshape⟩ := hsource q frame hq
    obtain ⟨hpage, hid⟩ := hdb.housed q old hold
    exact ⟨hhandle ▸ hpage, hshape.id_eq.trans hid⟩
  · intro q frame hq
    obtain ⟨old, hold, -, hshape⟩ := hsource q frame hq
    obtain ⟨r, hr, hfits⟩ := hdb.fits q old hold
    rw [h.catalog_eq]
    exact ⟨r, hr, hfits.of_shape hshape (Nat.le_of_eq (h.length_eq _).symm)⟩

theorem Settled.flushPage (h : db.Settled)
    (hrun : (Database.flushPage page).run db = (.ok (), db')) : Written [page] db db' := by
  rcases flushPage_cases hrun with ⟨hf, -, rfl⟩ |
    ⟨frame, hf, ⟨e, -, he, -⟩ | ⟨w, hw, -, rfl⟩⟩
  · refine ⟨?_, ?_, fun _ _ => rfl, fun _ _ _ => rfl, fun _ => rfl, rfl⟩
    · intro q
      by_cases hq : q = page <;> simp [hq, hf]
    · intro q frame hq hframe
      obtain rfl := List.mem_singleton.1 hq
      rw [hf] at hframe
      cases hframe
  · cases he
  · obtain ⟨r, hr, hwrite⟩ := store_eq_ok hw
    have hrewrites := h.rewrites hf hr hwrite
    have himage := h.image?_flushed hf hr hwrite
    obtain ⟨hhandle, hid⟩ := h.housed page frame hf
    refine ⟨?_, ?_, ?_, ?_, hrewrites.length_path, rfl⟩
    · intro q
      show (db.cache.modify frame.handle .markClean).frames.get? q = _
      rw [Cache.get?_modify hf hhandle]
      by_cases hq : q = page <;> simp [hq, hf, Frame.cleaned, Page.markClean]
    · intro q old hq hold
      obtain rfl := List.mem_singleton.1 hq
      obtain rfl := Option.some.inj (hf.symm.trans hold)
      exact (himage q).trans (if_pos rfl)
    · intro q hq
      exact (himage q).trans (if_neg (by simpa using hq))
    · intro path i hcovers
      have hcovers := List.forall_mem_singleton.1 hcovers
      by_cases hpath : path = r.file.path
      · subst hpath
        refine hrewrites.byte_eq i ?_
        rw [hid]
        by_contra hinside
        exact hcovers ⟨r, hr, rfl, by omega, by omega⟩
      · show (w.read path)[i]? = _
        rw [hrewrites.read_eq path hpath]

/-- Pages are stored one after another: each finds its own bytes as they were. -/
theorem Settled.flushEach (h : db.Settled)
    (hrun : (Database.flushEach pages).run db = (.ok (), db')) : Written pages db db' := by
  induction pages generalizing db with
  | nil =>
    obtain ⟨-, rfl⟩ := Prod.mk.inj hrun
    exact .refl db
  | cons page pages ih =>
    obtain ⟨⟨⟩, mid, hpage, hpages⟩ := Action.run_bind_eq_ok.1 hrun
    have hfirst := h.flushPage hpage
    exact hfirst.cons (ih (hfirst.settled h) hpages)

/-- A resident page can be stored unless its file is made to fail. -/
theorem Settled.flushPage_ok (h : db.Settled)
    (hfaults : ∀ r, db.catalog.registration page.table = .ok r → r.faults.write = false) :
    ∃ db', (Database.flushPage page).run db = (.ok (), db') := by
  rcases hrun : (Database.flushPage page).run db with ⟨answer, db'⟩
  rcases flushPage_cases hrun with ⟨-, rfl, -⟩ |
    ⟨frame, hf, ⟨e, hw, -, -⟩ | ⟨w, -, rfl, -⟩⟩
  · exact ⟨db', rfl⟩
  · obtain ⟨r, hr, -⟩ := h.fits page frame hf
    have htable : frame.page.id.table = r.file.id := by
      rw [(h.housed page frame hf).2, h.tables.id_eq hr]
    rw [store_of_registration hr htable (hfaults r hr)] at hw
    cases hw
  · exact ⟨db', rfl⟩

theorem Settled.flushEach_ok (h : db.Settled) (hfaults : ∀ page ∈ pages, ∀ r,
      db.catalog.registration page.table = .ok r → r.faults.write = false) :
    ∃ db', (Database.flushEach pages).run db = (.ok (), db') := by
  induction pages generalizing db with
  | nil => exact ⟨db, rfl⟩
  | cons page pages ih =>
    obtain ⟨hpage, hpages⟩ := List.forall_mem_cons.1 hfaults
    obtain ⟨mid, hfirst⟩ := h.flushPage_ok hpage
    have hwritten := h.flushPage hfirst
    obtain ⟨db', hrest⟩ := ih (hwritten.settled h) (hwritten.catalog_eq ▸ hpages)
    exact ⟨db', (Action.run_bind_of_ok hfirst _).trans hrest⟩

/-! ## Commit -/

/-- Ending a transaction with its pages taken in the order of a list. -/
def completeWith (locking : LockManager σ) (txn : TxnId) (commit : Bool) (pages : List PageId) :
    Action (Database σ) Unit := do
  if commit then flushEach pages else discardAll pages
  onLocks (.update (locking.releaseAll txn))

theorem run_complete (locking : LockManager σ) (txn : TxnId) (commit : Bool) (db : Database σ) :
    (complete locking txn commit).run db =
      (completeWith locking txn commit (db.cache.dirtyPages (some txn))).run db := by
  cases commit <;> rfl

/-- The pages that the transaction changed last are stored and clean, its locks are gone, and all
else is as it was. -/
structure Committed (locking : LockManager σ) (txn : TxnId) (db db' : Database σ) : Prop where
  stored : ∀ (page : PageId) (frame : Frame), db.cache.frames.get? page = some frame →
    frame.page.isDirty = true → frame.page.dirtier? = some txn →
    frame.cleaned.page.isDirty = false ∧ frame.cleaned.page.dirtier? = none ∧
      db'.cache.frames.get? page = some frame.cleaned ∧
      db'.catalog.image? db'.volume page = some frame.cleaned.page.encode
  kept : ∀ page, ¬ db.cache.ChangedBy txn page →
    db'.cache.frames.get? page = db.cache.frames.get? page
  byte_eq : ∀ path i, (∀ page, db.cache.ChangedBy txn page → ¬ db.catalog.Covers page path i) →
    (db'.volume.read path)[i]? = (db.volume.read path)[i]?
  length_eq : ∀ path, db'.volume.length path = db.volume.length path
  catalog_eq : db'.catalog = db.catalog
  ranking_eq : db'.cache.ranking = db.cache.ranking
  hits_eq : db'.cache.hits = db.cache.hits
  misses_eq : db'.cache.misses = db.cache.misses
  evictions_eq : db'.cache.evictions = db.cache.evictions
  locks_eq : db'.locks = locking.releaseAll txn db.locks

theorem Settled.commit (h : db.Settled) (hmem : db.cache.AllChangedBy txn pages)
    (hrun : (completeWith locking txn true pages).run db = (.ok (), db')) :
    db.Committed locking txn db' := by
  obtain ⟨⟨⟩, mid, hflush, hrelease⟩ := Action.run_bind_eq_ok.1 hrun
  obtain ⟨-, rfl⟩ := Prod.mk.inj hrelease
  have hwritten : Written pages db mid := h.flushEach hflush
  have hcatalog := hwritten.catalog_eq
  have hranking : mid.cache.ranking = db.cache.ranking := by rw [hwritten.others]
  have hhits : mid.cache.hits = db.cache.hits := by rw [hwritten.others]
  have hmisses : mid.cache.misses = db.cache.misses := by rw [hwritten.others]
  have hevictions : mid.cache.evictions = db.cache.evictions := by rw [hwritten.others]
  have hlocks : mid.locks = db.locks := by rw [hwritten.others]
  refine ⟨?_, ?_, ?_, hwritten.length_eq, hcatalog, hranking, hhits, hmisses, hevictions,
    congrArg _ hlocks⟩
  · intro page frame hf hdirty howner
    have hpage := (hmem page).2 ⟨frame, hf, hdirty, howner⟩
    refine ⟨rfl, rfl, ?_, ?_⟩
    · have hframe := hwritten.frames page
      rw [hf, Option.map_some, if_pos hpage] at hframe
      exact hframe
    · show mid.catalog.image? mid.volume page = _
      rw [hcatalog, Frame.encode_cleaned]
      exact hwritten.image_eq page frame hpage hf
  · intro page hpage
    have hframe := hwritten.frames page
    simp only [hmem page, hpage, if_false, Option.map_id'] at hframe
    exact hframe
  · intro path i hcovers
    exact hwritten.byte_eq path i fun q hq => hcovers q ((hmem q).1 hq)

/-! ## Abort -/

/-- The pages that the transaction changed last have left the cache, its locks are gone, and all
else is as it was. -/
structure Aborted (locking : LockManager σ) (txn : TxnId) (db db' : Database σ) : Prop where
  dropped : ∀ page, db.cache.ChangedBy txn page → db'.cache.isResident page = false
  kept : ∀ page, ¬ db.cache.ChangedBy txn page →
    db'.cache.frames.get? page = db.cache.frames.get? page
  roomy : (∃ page, db.cache.ChangedBy txn page) → db'.cache.size < db'.cache.capacity
  volume_eq : db'.volume = db.volume
  catalog_eq : db'.catalog = db.catalog
  uses?_eq : ∀ page, ¬ db.cache.ChangedBy txn page → db'.cache.uses? page = db.cache.uses? page
  candidates_eq : db'.cache.ranking.candidates =
    db.cache.ranking.candidates.filter db'.cache.isResident
  hits_eq : db'.cache.hits = db.cache.hits
  misses_eq : db'.cache.misses = db.cache.misses
  evictions_eq : db'.cache.evictions = db.cache.evictions
  locks_eq : db'.locks = locking.releaseAll txn db.locks

theorem run_discardAll (pages : List PageId) (db : Database σ) :
    (discardAll pages).run db = (.ok (), { db with cache := pages.foldl Cache.drop db.cache }) := by
  induction pages generalizing db with
  | nil => rfl
  | cons page pages ih => exact ih { db with cache := db.cache.drop page }

theorem run_abort (locking : LockManager σ) (txn : TxnId) (pages : List PageId)
    (db : Database σ) :
    (completeWith locking txn false pages).run db =
      (.ok (), { db with
        cache := pages.foldl Cache.drop db.cache
        locks := locking.releaseAll txn db.locks }) := by
  simp only [completeWith, Bool.false_eq_true, if_false, Action.run_bind, run_discardAll]
  rfl

theorem aborted {capacity : Nat} {moves : List (Move σ)} (h : db.cache.Records capacity moves)
    (hmem : db.cache.AllChangedBy txn pages)
    (hrun : (completeWith locking txn false pages).run db = (.ok (), db')) :
    db.Aborted locking txn db' := by
  rw [run_abort] at hrun
  obtain ⟨-, rfl⟩ := Prod.mk.inj hrun
  have hwithout := Cache.without_dropAll h.ranking pages
  have hsize (page : PageId) (frame : Frame) (hf : db.cache.frames.get? page = some frame)
      (hpage : page ∈ pages) :=
    Cache.size_dropAll_lt hf hpage
  generalize pages.foldl Cache.drop db.cache = d at hwithout hsize ⊢
  simp only [hmem _] at hsize
  have hcapacity : d.capacity = db.cache.capacity := by rw [hwithout.others]
  have hhits : d.hits = db.cache.hits := by rw [hwithout.others]
  have hmisses : d.misses = db.cache.misses := by rw [hwithout.others]
  have hevictions : d.evictions = db.cache.evictions := by rw [hwithout.others]
  refine ⟨?_, ?_, ?_, rfl, rfl, ?_, ?_, hhits, hmisses, hevictions, rfl⟩
  · intro page hpage
    refine Cache.isResident_of_absent ((hwithout.frames page).trans ?_)
    rw [if_pos ((hmem page).2 hpage)]
  · intro page hpage
    refine (hwithout.frames page).trans ?_
    rw [if_neg (mt (hmem page).1 hpage)]
  · rintro ⟨page, frame, hf, hchanged⟩
    show d.size < d.capacity
    rw [hcapacity]
    exact Nat.lt_of_lt_of_le (hsize page frame hf ⟨frame, hf, hchanged⟩) h.size_le
  · intro page hpage
    show (d.ranking.standings.get? page).map _ = (db.cache.ranking.standings.get? page).map _
    rw [hwithout.standings, if_neg (mt (hmem page).1 hpage)]
  · show d.ranking.candidates = db.cache.ranking.candidates.filter d.isResident
    rw [hwithout.candidates]
    refine List.filter_congr fun page hpage => ?_
    have hresident := (h.accounts.mem_candidates page).1 hpage
    have hframe := hwithout.frames page
    by_cases hdropped : page ∈ pages
    · rw [if_pos hdropped] at hframe
      simp [Cache.isResident_of_absent hframe, hdropped]
    · rw [if_neg hdropped] at hframe
      have hsame : d.isResident page = db.cache.isResident page := by
        rw [Cache.isResident, Keyed.contains, hframe]
        rfl
      simp [hsame, hresident, hdropped]

/-! ## Fetching a page that was dropped -/

/-- A fetch of the page decodes this image: it answers with the page that this gives, or with the
error, once the lock is granted and there is room. -/
structure Rereads (locking : LockManager σ) (db : Database σ) (r : Registration) (page : PageId)
    (image : Bytes) : Prop where
  fetched : ∀ txn access pinned frame db',
    (fetch locking txn page access pinned).run db = (.ok frame, db') →
    ∃ p, Page.decode page r.file.schema r.file.pageSize image = .ok p ∧
      frame.page = Cache.touch txn access p
  answer : ∀ txn access pinned locks roomy,
    locking.acquire txn page access db.locks = (.ok (), locks) → r.faults.read = false →
    db.cache.makeRoom pinned = .ok roomy →
    ((fetch locking txn page access pinned).run db).1.map Frame.page =
      (Page.decode page r.file.schema r.file.pageSize image).map (Cache.touch txn access)

theorem Settled.rereads {r : Registration} {image : Bytes} (h : db.Settled)
    (hloading : db.cache.loading = []) (hr : db.catalog.registration page.table = .ok r)
    (habsent : db.cache.isResident page = false)
    (himage : db.catalog.image? db.volume page = some image) :
    db.Rereads locking r page image := by
  have hf := Cache.get?_of_absent habsent
  rw [Catalog.image?_of_registration hr] at himage
  have hread := TableFile.readPage_of_image (h.tables.id_eq hr).symm himage
  refine ⟨?_, ?_⟩
  · intro txn access pinned frame db' hrun
    rcases fetch_cases hrun with ⟨e, he, -⟩ | ⟨old, hold, -⟩ | ⟨p, roomy, -, hstored, -, hanswer, -⟩
    · cases he
    · rw [hf] at hold
      cases hold
    · obtain ⟨s, hs, hp⟩ := Catalog.stored?_eq_some.1 hstored
      obtain rfl := Except.ok.inj (hr.symm.trans hs)
      refine ⟨p, hread ▸ hp, ?_⟩
      rw [Except.ok.inj hanswer]
      rfl
  · intro txn access pinned locks roomy hlock hfault hroom
    have hload : db.load page = Page.decode page r.file.schema r.file.pageSize image := by
      simp [load, hr, bind, Except.bind, Registration.readPage, hfault, hread]
    rw [fetch_of_miss pinned hlock hf hloading, hload, hroom]
    cases Page.decode page r.file.schema r.file.pageSize image with
    | error e => rfl
    | ok p => rfl

/-- Until the page is loaded, whatever else is done, a fetch of it decodes this image. -/
def Recalls (locking : LockManager σ) (db : Database σ) (r : Registration) (page : PageId)
    (image : Bytes) : Prop :=
  ∀ later last, Trace locking db later last → (∀ m ∈ later, m.Orderly) → last.Small →
    (∀ m ∈ later, m.loaded? ≠ some page) → last.Rereads locking r page image

end Database

section

variable {σ : Type} {locking : LockManager σ} {start db : Database σ} {capacity : Nat}

theorem Trace.recalls {moves : List (Move σ)} {r : Registration} {page : PageId} {image : Bytes}
    (h : Trace locking start moves db) (hcache : start.cache = Cache.ofCapacity capacity)
    (hsettled : db.Settled) (hr : db.catalog.registration page.table = .ok r)
    (habsent : db.cache.isResident page = false)
    (himage : db.catalog.image? db.volume page = some image) :
    db.Recalls locking r page image := by
  intro later last hlater horderly hsmall hloaded
  obtain ⟨hgone, hkept⟩ := hlater.keeps_image hsettled horderly hsmall habsent himage hloaded
  have hloading := ((h.trans hlater).records hcache).loading
  exact (hlater.settled hsettled horderly).rereads hloading (hlater.keeps hsettled horderly hr)
    hgone hkept

/-- An abort comes down to moves that leave the tables as they are, in any order of the pages. -/
theorem Database.divides_abort (locking : LockManager σ) (c : Catalog) (txn : TxnId)
    (pages : List PageId) : Divides locking c (completeWith locking txn false pages) :=
  .bind (divides_discardAll pages) fun _ =>
    .of_deed (.releaseAll txn) trivial (fun _ => trivial) (id_map _)

/-- In a session from an empty database, in which every table that is registered has a number, a
name and a file of its own: what a commit and an abort of any transaction do at its end, whichever
order they take the pages in. -/
theorem Session.completion {steps : List (Exchange σ)} (h : Session locking start steps db)
    (hcatalog : start.catalog = Catalog.empty) (hcache : start.cache = Cache.ofCapacity capacity)
    (hsteps : ∀ s ∈ steps, s.RegistersNew) (hsmall : db.Small) :
    (∃ moves, Itemized locking steps moves ∧ ∀ m ∈ moves, m.Orderly) ∧
      ∀ txn,
        (∃ pages, db.cache.AllChangedBy txn pages ∧ ∀ commit,
          (Database.complete locking txn commit).run db =
            (Database.completeWith locking txn commit pages).run db) ∧
        ∀ pages, db.cache.AllChangedBy txn pages →
          (∀ after, (Database.completeWith locking txn true pages).run db = (.ok (), after) →
            db.Committed locking txn after) ∧
          ((∀ page r, db.cache.ChangedBy txn page → db.catalog.registration page.table = .ok r →
              r.faults.write = false) →
            ∃ after, (Database.completeWith locking txn true pages).run db = (.ok (), after)) ∧
          ∃ after, (Database.completeWith locking txn false pages).run db = (.ok (), after) ∧
            db.Aborted locking txn after ∧
            ∀ page, db.cache.ChangedBy txn page →
              ∃ r image, db.catalog.registration page.table = .ok r ∧
                (∀ moves, Itemized locking steps moves → (∀ m ∈ moves, m.Orderly) →
                  History.image? page moves = some image) ∧
                after.Recalls locking r page image := by
  have hhoused : start.cache.Housed := hcache ▸ Cache.housed_ofCapacity capacity
  have hstart : start.Settled := .ofCapacity (hcatalog ▸ Catalog.apart_empty) hcache
  obtain ⟨moves, hmoves, horderly⟩ := h.itemized_orderly hhoused
  have horderly := horderly hsteps
  have htrace := h.trace hmoves
  have hsettled := htrace.settled hstart horderly
  have hrecords := htrace.records hcache
  refine ⟨⟨moves, hmoves, horderly⟩, fun txn => ⟨?_, fun pages hpages => ⟨?_, ?_, _,
    Database.run_abort locking txn pages db, ?_⟩⟩⟩
  · exact ⟨_, Cache.allChangedBy_dirtyPages hrecords.wellKeyed txn,
      fun commit => Database.run_complete locking txn commit db⟩
  · intro after hrun
    exact hsettled.commit hpages hrun
  · intro hfaults
    obtain ⟨mid, hflush⟩ := hsettled.flushEach_ok fun page hpage r hr =>
      hfaults page r ((hpages page).1 hpage) hr
    exact ⟨_, Action.run_bind_of_ok (x := Database.flushEach pages) hflush _⟩
  · have haborted := Database.aborted hrecords hpages (Database.run_abort locking txn pages db)
    refine ⟨haborted, ?_⟩
    rintro page ⟨frame, hf, hchanged⟩
    obtain ⟨r, image, hr, himage⟩ := hsettled.image?_of_resident hf
    rw [← Catalog.image?_of_registration hr] at himage
    refine ⟨r, image, hr, ?_, ?_⟩
    · intro moves hmoves horderly
      have hlast := (h.trace hmoves).image? hstart horderly hsmall page
      rw [himage, hcatalog, Catalog.image?_empty, Option.or_none] at hlast
      exact hlast.symm
    · -- the moves of the session go on with those of the abort
      obtain ⟨later, hlater, hwithin⟩ :=
        Database.divides_abort locking db.catalog txn pages db hsettled.housed rfl
      have hafter := hlater.trace
      rw [Database.run_abort] at hafter
      have hend := hafter.settled hsettled (hafter.orderly_of_within hwithin)
      exact (htrace.trans hafter).recalls hcache hend hr
        (haborted.dropped page ⟨frame, hf, hchanged⟩) himage

/-- One transaction changed a page again after it was stored, and another one changed the next page.
If the first one commits, its page is clean and has no owner. If it aborts, its page is read back
with the one row that was stored. -/
theorem Session.completion_two_writers :
    ∃ steps db committed frame aborted r image,
      Session .permissive (Database.withoutTables 9 4) steps db ∧
        (Database.complete .permissive ⟨1⟩ true).run db = (.ok (), committed) ∧
        db.Committed .permissive ⟨1⟩ committed ∧
        committed.cache.frames.get? ⟨TableFile.idOf ["t"], 1⟩ = some frame ∧
        frame.page.isDirty = false ∧ frame.page.dirtier? = none ∧
        (Database.complete .permissive ⟨1⟩ false).run db = (.ok (), aborted) ∧
        db.Aborted .permissive ⟨1⟩ aborted ∧
        db.cache.ChangedBy ⟨1⟩ ⟨TableFile.idOf ["t"], 1⟩ ∧
        db.cache.ChangedBy ⟨2⟩ ⟨TableFile.idOf ["t"], 2⟩ ∧
        aborted.Recalls .permissive r ⟨TableFile.idOf ["t"], 1⟩ image ∧
        (Page.decode ⟨TableFile.idOf ["t"], 1⟩ r.file.schema r.file.pageSize image).toOption.map
          (fun p => p.rows.length) = some 1 := by
  let result := Database.converse .permissive [] (Database.withoutTables 9 4)
    [.openTable [] "t" Database.numbers "t" "",
      .call (.insert ⟨1⟩ (TableFile.idOf ["t"]) (Database.number 5)),
      .call (.insert ⟨1⟩ (TableFile.idOf ["t"]) (Database.number 6)),
      .call (.insert ⟨1⟩ (TableFile.idOf ["t"]) (Database.number 7)),
      .call (.complete ⟨1⟩ true),
      .call (.insert ⟨1⟩ (TableFile.idOf ["t"]) (Database.number 8)),
      .call (.insert ⟨2⟩ (TableFile.idOf ["t"]) (Database.number 9))]
  have hsession : Session .permissive (Database.withoutTables 9 4) result.1 result.2 :=
    Session.nil.converse (by simp [Request.Permitted])
  have hsteps : ∀ s ∈ result.1, s.RegistersNew := by
    refine List.forall_mem_cons.2 ⟨trivial, List.forall_mem_cons.2 ⟨trivial,
      List.forall_mem_cons.2 ⟨trivial, List.forall_mem_cons.2 ⟨trivial,
      List.forall_mem_cons.2 ⟨trivial, List.forall_mem_cons.2 ⟨trivial,
      List.forall_mem_singleton.2 ?_⟩⟩⟩⟩⟩⟩
    intro f w hopen
    exact Catalog.admits_empty (TableFile.pageSize_pos_of_openIn hopen)
  have hsmall : result.2.Small := Database.small_of_entries (by decide +kernel)
  have hcache : (Database.withoutTables 9 4).cache = Cache.ofCapacity 4 := rfl
  obtain ⟨-, hends⟩ := Session.completion hsession rfl hcache hsteps hsmall
  have hfirst : result.2.cache.ChangedBy ⟨1⟩ ⟨TableFile.idOf ["t"], 1⟩ := by decide +kernel
  have hsecond : result.2.cache.ChangedBy ⟨2⟩ ⟨TableFile.idOf ["t"], 2⟩ := by decide +kernel
  have hfaults (id : TableId) (r : Registration) (hr : result.2.catalog.registration id = .ok r) :
      r.faults = .none := by
    have hnone : ∀ e ∈ result.2.catalog.byId.entries, e.2.faults = .none := by decide +kernel
    exact hnone _ (Keyed.mem_entries_of_get? (Catalog.registration_eq_ok.1 hr))
  obtain ⟨⟨pages, hpages, hcomplete⟩, hends⟩ := hends ⟨1⟩
  obtain ⟨hcommit, hcommits, aborted, habort, haborted, hrecalls⟩ := hends pages hpages
  obtain ⟨committed, hcommitted⟩ := hcommits fun page r _ hr => by rw [hfaults _ r hr]; rfl
  have hcommit := hcommit _ hcommitted
  rw [← hcomplete] at hcommitted habort
  obtain ⟨r, image, hr, -, hrecalls⟩ := hrecalls _ hfirst
  have hchanged := hfirst
  obtain ⟨frame, hf, hdirty, howner⟩ := hchanged
  obtain ⟨hclean, hfree, hstored, -⟩ := hcommit.stored _ frame hf hdirty howner
  refine ⟨_, _, committed, frame.cleaned, aborted, r, image, hsession, hcommitted, hcommit, hstored,
    hclean, hfree, habort, haborted, hfirst, hsecond, hrecalls, ?_⟩
  have hsmall : aborted.Small := by
    rw [Database.Small, haborted.catalog_eq, haborted.volume_eq]
    exact hsmall
  have hroom : aborted.cache.makeRoom [] = .ok aborted.cache := if_pos (haborted.roomy ⟨_, hfirst⟩)
  have hanswer := (hrecalls [] aborted .nil (by simp) hsmall (by simp)).answer ⟨3⟩ .readOnly [] () _
    rfl (by rw [hfaults _ r hr]; rfl) hroom
  obtain rfl : ((Database.complete .permissive ⟨1⟩ false).run result.2).2 = aborted :=
    congrArg Prod.snd habort
  have hrows : (((Database.fetch .permissive ⟨3⟩ ⟨TableFile.idOf ["t"], 1⟩ .readOnly []).run
      ((Database.complete .permissive ⟨1⟩ false).run result.2).2).1.map Frame.page).toOption.map
      (fun p => p.rows.length) = some 1 := by decide +kernel
  rw [hanswer] at hrows
  cases hdecode : Page.decode ⟨TableFile.idOf ["t"], 1⟩ r.file.schema r.file.pageSize image with
  | error e =>
    rw [hdecode] at hrows
    cases hrows
  | ok p =>
    rw [hdecode] at hrows
    exact hrows

end

end RowStore
