import RowStore.Proofs.Database.Coherent

/-!
# Flushing and discarding

Flushing a page stores its draft, and discarding it gives the draft up. A commit flushes the pages
that the transaction changed last, one after another up to the first failure, and an abort discards
them; neither touches any other page.
-/

namespace RowStore

namespace View

variable {v : View} {pages : List PageId}

/-- The drafts of the pages go to their files. -/
def flushAll (v : View) (pages : List PageId) : View := pages.foldl flush v

/-- The drafts of the pages are given up. -/
def discardAll (v : View) (pages : List PageId) : View := pages.foldl discard v

theorem drafts_flush (v : View) (page q : PageId) :
    (v.flush page).drafts q = if q = page then none else v.drafts q := by
  unfold flush
  cases hd : v.drafts page with
  | none =>
    simp only
    split
    · next hq => rw [hq, hd]
    · rfl
  | some draft => simp only [Function.update_apply]

theorem saved_flush (v : View) (page q : PageId) :
    (v.flush page).saved q = if q = page then v.cells? q else v.saved q := by
  unfold flush
  cases hd : v.drafts page with
  | none =>
    simp only
    split
    · next hq => rw [hq, cells?_of_no_draft hd]
    · rfl
  | some draft =>
    simp only [Function.update_apply]
    split
    · next hq => rw [hq, cells?_of_draft hd]
    · rfl

theorem cells?_flushAll (v : View) (pages : List PageId) (q : PageId) :
    (v.flushAll pages).cells? q = v.cells? q := by
  induction pages generalizing v with
  | nil => rfl
  | cons page pages ih => exact (ih (v.flush page)).trans (cells?_flush v page q)

theorem row?_flushAll (v : View) (pages : List PageId) (spot : RowId) :
    (v.flushAll pages).row? spot = v.row? spot := by rw [row?, cells?_flushAll, row?]

theorem drafts_flushAll (v : View) (pages : List PageId) (q : PageId) :
    (v.flushAll pages).drafts q = if q ∈ pages then none else v.drafts q := by
  induction pages generalizing v with
  | nil => rfl
  | cons page pages ih =>
    rw [flushAll, List.foldl_cons, ← flushAll, ih, drafts_flush]
    by_cases hq : q = page
    · simp [hq]
    · simp [hq]

theorem saved_flushAll (v : View) (pages : List PageId) (q : PageId) :
    (v.flushAll pages).saved q = if q ∈ pages then v.cells? q else v.saved q := by
  induction pages generalizing v with
  | nil => rfl
  | cons page pages ih =>
    rw [flushAll, List.foldl_cons, ← flushAll, ih, saved_flush, cells?_flush]
    by_cases hq : q = page
    · simp [hq]
    · simp [hq]

theorem saved_discardAll (v : View) (pages : List PageId) :
    (v.discardAll pages).saved = v.saved := by
  induction pages generalizing v with
  | nil => rfl
  | cons page pages ih => exact ih (v.discard page)

theorem drafts_discardAll (v : View) (pages : List PageId) (q : PageId) :
    (v.discardAll pages).drafts q = if q ∈ pages then none else v.drafts q := by
  induction pages generalizing v with
  | nil => rfl
  | cons page pages ih =>
    rw [discardAll, List.foldl_cons, ← discardAll, ih]
    simp only [discard, Function.update_apply, List.mem_cons]
    by_cases hq : q = page
    · simp [hq]
    · simp [hq]

theorem savedRow?_flushAll (v : View) (pages : List PageId) (spot : RowId) :
    (v.flushAll pages).savedRow? spot =
      if spot.page ∈ pages then v.row? spot else v.savedRow? spot := by
  rw [savedRow?, saved_flushAll]
  split <;> rfl

theorem savedRow?_discardAll (v : View) (pages : List PageId) (spot : RowId) :
    (v.discardAll pages).savedRow? spot = v.savedRow? spot := by
  rw [savedRow?, saved_discardAll, savedRow?]

theorem row?_discardAll (v : View) (pages : List PageId) (spot : RowId) :
    (v.discardAll pages).row? spot =
      if spot.page ∈ pages then v.savedRow? spot else v.row? spot := by
  rw [row?, cells?, drafts_discardAll, saved_discardAll]
  split <;> rfl

end View

namespace Cache

variable {c : Cache}

/-- The pages to flush or discard for a transaction are those whose drafts it owns. -/
theorem mem_dirtyPages (h : c.frames.WellKeyed) {page : PageId} {txn : Option TxnId} :
    page ∈ c.dirtyPages txn ↔ ∃ frame, c.frames.get? page = some frame ∧
      frame.page.isDirty = true ∧ ∀ t, txn = some t → frame.page.dirtier? = some t := by
  have hentry (frame : Frame) : (page, frame) ∈ c.frames.entries ↔
      c.frames.get? page = some frame := h.mem_entries
  simp only [dirtyPages, List.mem_map, List.mem_filter, Bool.and_eq_true, Prod.exists,
    exists_and_right, exists_eq_right, hentry]
  cases txn with
  | none => simp
  | some t => simp [Page.dirtiedBy]

end Cache

namespace Database

variable {σ : Type} {locking : LockManager σ} {txn : TxnId} {page : PageId}
  {pages : List PageId} {db db' : Database σ} {answer : Except StorageError Unit}

theorem Coherent.mem_dirtyPages (h : db.Coherent) {txn : Option TxnId} :
    page ∈ db.cache.dirtyPages txn ↔ ∃ draft, db.view.drafts page = some draft ∧
      ∀ t, txn = some t → draft.owner? = some t := by
  rw [Cache.mem_dirtyPages h.wellKeyed]
  simp only [view, Option.bind_eq_some_iff]
  constructor
  · rintro ⟨frame, hget, hdirty, howner⟩
    exact ⟨_, ⟨frame, hget, Page.draft?_of_dirty hdirty⟩, howner⟩
  · rintro ⟨draft, ⟨frame, hget, hdraft⟩, howner⟩
    cases hd : frame.page.isDirty with
    | true =>
      rw [Page.draft?_of_dirty hd] at hdraft
      obtain rfl := Option.some.inj hdraft
      exact ⟨frame, hget, hd, howner⟩
    | false => simp [Page.draft?_of_clean hd] at hdraft

theorem Coherent.discard (h : db.Coherent) (page : PageId) :
    ∃ db', (Database.discard page).run db = (.ok (), db') ∧ db'.Coherent ∧
      db'.catalog = db.catalog ∧ db'.volume = db.volume ∧ db'.view = db.view.discard page := by
  refine ⟨_, rfl, ⟨h.tables, ?_, h.wellKeyed.erase _,
    Nat.le_trans (Keyed.size_erase_le _ _) h.size_le, h.loading⟩, rfl, rfl,
    View.ext rfl (funext fun q => ?_)⟩
  · intro q f hq
    have hq : (db.cache.frames.erase page).get? q = some f := hq
    rw [Keyed.get?_erase] at hq
    split at hq
    · cases hq
    · exact h.backed q f hq
  · have hget : ((db.cache.drop page).frames.get? q).bind (fun f => f.page.draft?) =
        if q = page then none else db.view.drafts q := by
      show ((db.cache.frames.erase page).get? q).bind _ = _
      rw [Keyed.get?_erase]
      split <;> rfl
    simp only [View.discard, Function.update_apply]
    exact hget

theorem Coherent.discardAll (h : db.Coherent) (pages : List PageId) :
    ∃ db', (Database.discardAll pages).run db = (.ok (), db') ∧ db'.Coherent ∧
      db'.catalog = db.catalog ∧ db'.volume = db.volume ∧
      db'.view = db.view.discardAll pages := by
  induction pages generalizing db with
  | nil => exact ⟨db, rfl, h, rfl, rfl, rfl⟩
  | cons page pages ih =>
    obtain ⟨mid, hrun, hmid, hcatalog, hvolume, hview⟩ := h.discard page
    obtain ⟨last, hruns, hlast, hcatalogs, hvolumes, hviews⟩ := ih hmid
    refine ⟨last, ?_, hlast, hcatalogs.trans hcatalog, hvolumes.trans hvolume, ?_⟩
    · rw [Database.discardAll, Action.run_bind_of_ok hrun]
      exact hruns
    · rw [hviews, hview]
      rfl

/-- Drafts were stored, one page after another. -/
structure Flushed (pages : List PageId) (db db' : Database σ) : Prop where
  coherent : db'.Coherent
  catalog_eq : db'.catalog = db.catalog
  view_eq : db'.view = db.view.flushAll pages

theorem store_eq_ok {p : Page} {w : Volume} (h : db.store page p = .ok w) :
    ∃ r, db.catalog.registration page.table = .ok r ∧ r.file.writePage db.volume p = .ok w := by
  obtain ⟨r, hr, hw⟩ := Except.bind_eq_ok.1 h
  unfold Registration.writePage at hw
  split at hw
  · cases hw
  · exact ⟨r, hr, hw⟩

/-- A page that is stored is clean afterwards. -/
theorem Coherent.storeFrame {frame : Frame} {w : Volume} (h : db.Coherent)
    (hf : db.cache.frames.get? page = some frame) (hstore : db.store page frame.page = .ok w) :
    Flushed [page] db
      { db with volume := w, cache := db.cache.modify frame.handle .markClean } := by
  obtain ⟨r, hr, hw⟩ := store_eq_ok hstore
  have hb := h.backed page frame hf
  obtain rfl := hb.id_eq
  obtain ⟨s, hs, hbelongs⟩ := hb.belongs
  obtain rfl : r = s := Except.ok.inj (hr.symm.trans hs)
  obtain ⟨q, hq, hrevert⟩ := hb.source
  obtain ⟨s, hs, hread⟩ := Catalog.stored?_eq_some.1 hq
  obtain rfl : r = s := Except.ok.inj (hr.symm.trans hs)
  obtain ⟨htables, hstored⟩ := h.tables.writePage hr hbelongs
    (TableFile.number_lt_of_readPage hread) hw
  have hi := h.tables.file _ r hr
  have hget := Cache.get?_modify hf hb.handle_eq Page.markClean
  have hclean : Frame.Backed db.catalog w frame.page.id
      { frame with page := frame.page.markClean } := by
    refine ⟨hb.handle_eq, rfl, ⟨r, hr, hb.sound.markClean, hbelongs.table_eq,
      hbelongs.schema_eq, hbelongs.pageSize_eq⟩, _, (hstored _).trans (if_pos rfl), ?_⟩
    rw [Page.cells_reread]
    exact hb.sound.markClean.revertsTo_self (hbelongs.schema_eq ▸ hi.schema)
      (hbelongs.pageSize_eq ▸ hi.pageSize_lt) rfl
  refine ⟨⟨htables, ?_, h.wellKeyed.adjust _ _,
    Nat.le_trans (Nat.le_of_eq (Cache.size_modify _ _ _)) h.size_le, h.loading⟩, rfl,
    View.ext (funext fun q => ?_) (funext fun q => ?_)⟩
  · intro q f hq
    have hq : (db.cache.modify frame.handle .markClean).frames.get? q = some f := hq
    rw [hget] at hq
    split at hq
    · next heq =>
      cases hq
      exact heq ▸ hclean
    · next hne =>
      refine (h.backed q f hq).of_stored ?_
      rw [hstored, if_neg hne]
  · rw [View.saved_flushAll]
    simp only [view, List.mem_singleton, hstored]
    split
    · next heq =>
      rw [heq, ← view, h.cells?_view hf, Option.map_some, Page.cells_reread]
    · rfl
  · rw [View.drafts_flushAll]
    simp only [view, List.mem_singleton, hget]
    split <;> rfl

/-- Flushing a page does nothing where the page is not resident, fails where it cannot be stored,
and leaves the page clean where it can. -/
theorem flushPage_cases (h : (Database.flushPage page).run db = (answer, db')) :
    (db.cache.frames.get? page = none ∧ answer = .ok () ∧ db' = db) ∨
      ∃ frame, db.cache.frames.get? page = some frame ∧
        ((∃ e, db.store page frame.page = .error e ∧ answer = .error e ∧ db' = db) ∨
          ∃ w, db.store page frame.page = .ok w ∧ answer = .ok () ∧
            db' = { db with volume := w, cache := db.cache.modify frame.handle .markClean }) := by
  unfold Database.flushPage at h
  cases hf : db.cache.frames.get? page with
  | none =>
    simp only [hf, Prod.mk.injEq] at h
    exact .inl ⟨rfl, h.1.symm, h.2.symm⟩
  | some frame =>
    refine .inr ⟨frame, rfl, ?_⟩
    cases hw : db.store page frame.page with
    | error e =>
      simp only [hf, hw, Prod.mk.injEq] at h
      exact .inl ⟨e, rfl, h.1.symm, h.2.symm⟩
    | ok w =>
      simp only [hf, hw, Prod.mk.injEq] at h
      exact .inr ⟨w, rfl, h.1.symm, h.2.symm⟩

theorem Coherent.flushPage (h : db.Coherent)
    (hrun : (Database.flushPage page).run db = (answer, db')) :
    (∃ e, answer = .error e ∧ db' = db) ∨ answer = .ok () ∧ Flushed [page] db db' := by
  rcases flushPage_cases hrun with ⟨hf, hanswer, rfl⟩ |
    ⟨frame, hf, ⟨e, -, hanswer, rfl⟩ | ⟨w, hw, hanswer, rfl⟩⟩
  · refine .inr ⟨hanswer, h, rfl, ?_⟩
    simp [View.flushAll, View.flush, drafts_of_absent hf]
  · exact .inl ⟨e, hanswer, rfl⟩
  · exact .inr ⟨hanswer, h.storeFrame hf hw⟩

/-- Pages are flushed in order; the first one that cannot be stored ends it. -/
theorem Coherent.flushEach (h : db.Coherent)
    (hrun : (Database.flushEach pages).run db = (answer, db')) :
    ∃ flushed rest, pages = flushed ++ rest ∧ Flushed flushed db db' ∧
      (answer = .ok () → rest = []) := by
  induction pages generalizing db with
  | nil =>
    obtain ⟨rfl, rfl⟩ := Prod.mk.inj hrun
    exact ⟨[], [], rfl, ⟨h, rfl, rfl⟩, fun _ => rfl⟩
  | cons page pages ih =>
    rcases hpage : (Database.flushPage page).run db with ⟨result, mid⟩
    rw [Database.flushEach, Action.run_bind, hpage] at hrun
    rcases h.flushPage hpage with ⟨e, rfl, rfl⟩ | ⟨rfl, hmid⟩
    · obtain ⟨rfl, rfl⟩ := Prod.mk.inj hrun
      exact ⟨[], page :: pages, rfl, ⟨h, rfl, rfl⟩, by simp⟩
    · obtain ⟨flushed, rest, rfl, hlast, hall⟩ := ih hmid.coherent hrun
      refine ⟨page :: flushed, rest, rfl, ⟨hlast.coherent,
        hlast.catalog_eq.trans hmid.catalog_eq, ?_⟩, hall⟩
      rw [hlast.view_eq, hmid.view_eq]
      rfl

theorem Flushed.withLocks (h : Flushed pages db db') (locks : σ) :
    Flushed pages db { db' with locks := locks } :=
  ⟨h.coherent.withLocks locks, h.catalog_eq, h.view_eq⟩

theorem Coherent.commit (h : db.Coherent)
    (hrun : (complete locking txn true).run db = (answer, db')) :
    ∃ flushed rest, db.cache.dirtyPages (some txn) = flushed ++ rest ∧ Flushed flushed db db' ∧
      (answer = .ok () → rest = []) := by
  rcases hflush : (Database.flushEach (db.cache.dirtyPages (some txn))).run db with ⟨result, mid⟩
  simp only [complete, if_true, Action.run_bind, flushPages, Action.run_ask, hflush] at hrun
  obtain ⟨flushed, rest, hpages, hmid, hall⟩ := h.flushEach hflush
  cases result with
  | error e =>
    obtain ⟨rfl, rfl⟩ := Prod.mk.inj hrun
    exact ⟨flushed, rest, hpages, hmid, by simp⟩
  | ok _ =>
    obtain ⟨rfl, rfl⟩ := Prod.mk.inj hrun
    exact ⟨flushed, rest, hpages, hmid.withLocks _, fun _ => hall rfl⟩

theorem Coherent.abort (h : db.Coherent)
    (hrun : (complete locking txn false).run db = (answer, db')) :
    answer = .ok () ∧ db'.Coherent ∧ db'.catalog = db.catalog ∧ db'.volume = db.volume ∧
      db'.view = db.view.discardAll (db.cache.dirtyPages (some txn)) := by
  obtain ⟨mid, hdiscard, hmid, hcatalog, hvolume, hview⟩ :=
    h.discardAll (db.cache.dirtyPages (some txn))
  simp only [complete, Bool.false_eq_true, if_false, Action.run_bind, Action.run_ask,
    hdiscard] at hrun
  obtain ⟨rfl, rfl⟩ := Prod.mk.inj hrun
  exact ⟨rfl, hmid.withLocks _, hcatalog, hvolume, hview⟩

end Database

end RowStore
