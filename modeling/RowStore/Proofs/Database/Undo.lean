import RowStore.Proofs.Database.Contents

/-!
# Two ways back

A resident page that is clean agrees with its file slot by slot, and so does the image that a
changed page took of itself before the change. Giving up a clean page therefore loses nothing, and
putting back the image of a changed page gives the same page as fetching it anew.
-/

namespace RowStore

/-- Two pages of one place hold the same values under the same places, slot by slot. -/
structure Page.Matches (p q : Page) : Prop where
  id_eq : p.id = q.id
  layout_eq : p.layout = q.layout
  row_eq : ∀ i, (p.row? i).map (fun r => (r.values, r.place)) =
    (q.row? i).map fun r => (r.values, r.place)

namespace Page

variable {p q : Page}

theorem Matches.symm (h : p.Matches q) : q.Matches p :=
  ⟨h.id_eq.symm, h.layout_eq.symm, fun i => (h.row_eq i).symm⟩

theorem Matches.trans {r : Page} (h : p.Matches q) (h' : q.Matches r) : p.Matches r :=
  ⟨h.id_eq.trans h'.id_eq, h.layout_eq.trans h'.layout_eq,
    fun i => (h.row_eq i).trans (h'.row_eq i)⟩

/-- Rows of a sound page have their slots as places, so the values tell them apart. -/
theorem Sound.row?_map (h : p.Sound) (i : Nat) :
    (p.row? i).map (fun r => (r.values, r.place)) =
      (p.cells.at? i).map fun values => (values, some ⟨p.id, i⟩) := by
  rw [at?_cells]
  cases hr : p.row? i with
  | none => rfl
  | some r => simp [(h.housed i r hr).place_eq]

theorem BelongsTo.matches {f : TableFile} (hp : p.BelongsTo f) (hq : q.BelongsTo f)
    (hid : p.id = q.id) (hcells : p.cells = q.cells) : p.Matches q := by
  refine ⟨hid, ?_, ?_⟩
  · rw [hp.sound.layout_def, hq.sound.layout_def, hp.pageSize_eq, hq.pageSize_eq, hp.schema_eq,
      hq.schema_eq]
  · intro i
    rw [hp.sound.row?_map, hq.sound.row?_map, hcells, hid]

theorem matches_touch (txn : TxnId) (access : Access) (p : Page) :
    (Cache.touch txn access p).Matches p := by
  unfold Cache.touch
  split
  · rw [markDirty_eq]
    exact ⟨rfl, rfl, fun _ => rfl⟩
  · exact ⟨rfl, rfl, fun _ => rfl⟩

end Page

namespace Database

variable {σ : Type} {locking : LockManager σ} {db db' : Database σ} {page : PageId} {frame : Frame}

/-- Discarding a page and fetching it again, if the lock is granted and reading does not fail,
gives this page. -/
def Refetches (locking : LockManager σ) (db : Database σ) (page : PageId) (p : Page) : Prop :=
  ∀ (txn : TxnId) (access : Access) (pinned : List Handle),
    (locking.acquire txn page access db.locks).1 = .ok () →
    (∀ r, db.catalog.registration page.table = .ok r → r.faults.read = false) →
    ∃ frame, ((do discard page; fetch locking txn page access pinned).run db).1 = .ok frame ∧
      frame.page.Matches p

/-- A resident page lies inside its file, and what it would go back to is the page of the file. A
clean page can be given up and fetched again, and fetching a changed page again after it was
discarded is putting its image back. -/
def Agrees (locking : LockManager σ) (db : Database σ) (page : PageId) (p : Page) : Prop :=
  ∃ r q, db.catalog.registration page.table = .ok r ∧
    page.number.toNat < r.file.pageCount db.volume ∧ r.file.readPage db.volume page = .ok q ∧
    (p.isDirty = false → p.Matches q ∧
      contents { db with cache := db.cache.drop page } = db.contents ∧
      db.Refetches locking page p) ∧
    (p.isDirty = true → ∃ b, p.beforeImage = .ok b ∧ b.Matches q ∧ db.Refetches locking page b)

/-- Giving up a clean page changes nothing that is shown. -/
theorem Coherent.contents_drop (h : db.Coherent) (hf : db.cache.frames.get? page = some frame)
    (hclean : frame.page.isDirty = false) :
    contents { db with cache := db.cache.drop page } = db.contents := by
  obtain ⟨dropped, hrun, -, -, -, hview⟩ := h.discard page
  obtain ⟨-, rfl⟩ := Prod.mk.inj hrun
  refine contents_of_view_eq (hview.trans (View.discard_of_no_draft ?_))
  rw [drafts_of_resident hf, Page.draft?_of_clean hclean]

/-- What is fetched after a resident page was discarded is the page of the file. -/
theorem Coherent.refetches {r : Registration} {p q : Page} (h : db.Coherent)
    (hf : db.cache.frames.get? page = some frame)
    (hr : db.catalog.registration page.table = .ok r)
    (hq : r.file.readPage db.volume page = .ok q) (hp : q.Matches p) :
    db.Refetches locking page p := by
  intro txn access pinned hgranted hfault
  obtain ⟨dropped, hrun, hdropped, -, -, -⟩ := h.discard page
  obtain ⟨-, rfl⟩ := Prod.mk.inj hrun
  have hlock : locking.acquire txn page access db.locks =
      (.ok (), (locking.acquire txn page access db.locks).2) := Prod.ext hgranted rfl
  have hload : db.load page = .ok q := by
    simp [load, hr, Registration.readPage, hfault r hr, hq, bind, Except.bind]
  have hfetch : ((Database.fetch locking txn page access pinned).run
      { db with cache := db.cache.drop page }).1 = _ :=
    fetch_of_absent hlock (Keyed.get?_erase_self _ _) h.loading
      (Nat.lt_of_lt_of_le (Keyed.size_erase_lt hf) h.size_le) hload
  refine ⟨⟨⟨page, db.cache.nextSerial⟩, Cache.touch txn access q⟩, ?_, ?_⟩
  · rw [Action.run_bind_of_ok hrun]
    exact hfetch
  · exact (Page.matches_touch txn access q).trans hp

end Database

theorem Run.resident_agrees {σ : Type} {locking : LockManager σ} {start db : Database σ}
    {steps : List (Step σ)} (hfresh : start.Fresh) (hrun : Run locking start steps db) :
    ∀ (page : PageId) (frame : Frame), db.cache.frames.get? page = some frame →
      db.Agrees locking page frame.page := by
  intro page frame hf
  have h := hrun.coherent hfresh
  have hb := h.backed page frame hf
  obtain ⟨r, hr, hbelongs⟩ := hb.belongs
  obtain ⟨q, hq, hrevert⟩ := hb.source
  obtain ⟨s, hs, hread⟩ := Catalog.stored?_eq_some.1 hq
  obtain rfl : r = s := Except.ok.inj (hr.symm.trans hs)
  have hfile := TableFile.belongsTo_of_readPage hread
  have hid := Catalog.id_of_stored? hq
  have hi := h.tables.file _ r hr
  refine ⟨r, q, hr, TableFile.number_lt_of_readPage hread, hread, ?_,
    ?_⟩
  · intro hclean
    have hcells := hbelongs.sound.cells_eq_of_revertsTo (hbelongs.schema_eq ▸ hi.schema)
      (hbelongs.pageSize_eq ▸ hi.pageSize_lt) hclean hrevert
    have hmatch := hbelongs.matches hfile (hb.id_eq.trans hid.symm) hcells
    exact ⟨hmatch, h.contents_drop hf hclean, h.refetches hf hr hread hmatch.symm⟩
  · intro hdirty
    obtain ⟨b, hbefore, hcells⟩ := Page.beforeImage_of_revertsTo hdirty hrevert
    have hbid := Page.id_of_decode hbefore
    have hbefore' : b.BelongsTo r.file :=
      ⟨.of_decode hbefore, hbid ▸ hbelongs.table_eq,
        (Page.schema_of_decode hbefore).trans hbelongs.schema_eq,
        (Page.pageSize_of_decode hbefore).trans hbelongs.pageSize_eq⟩
    have hmatch := hbefore'.matches hfile (hbid.trans (hb.id_eq.trans hid.symm)) hcells
    exact ⟨b, hbefore, hmatch, h.refetches hf hr hread hmatch.symm⟩

/-- A page that was changed, flushed and changed again by another transaction. -/
theorem Run.resident_agrees_changed_twice :
    (Database.ofTable Database.numbers 9 1).Fresh ∧
      ∃ steps db frame, Run .permissive (Database.ofTable Database.numbers 9 1) steps db ∧
        db.cache.frames.get? ⟨TableFile.idOf ["t"], 0⟩ = some frame ∧
        frame.page.dirtier? = some ⟨2⟩ ∧ frame.page.rows.length = 2 ∧
        db.Agrees .permissive ⟨TableFile.idOf ["t"], 0⟩ frame.page := by
  have hfresh : (Database.ofTable Database.numbers 9 1).Fresh :=
    .ofTable (by decide) (by decide) rfl
  obtain ⟨steps, db, hrun, hframe⟩ : ∃ steps db,
      Run .permissive (Database.ofTable Database.numbers 9 1) steps db ∧
        (db.cache.frames.get? ⟨TableFile.idOf ["t"], 0⟩).map
          (fun frame => (frame.page.dirtier?, frame.page.rows.length)) = some (some ⟨2⟩, 2) :=
    ⟨_, _, Run.of_calls .permissive (Database.ofTable Database.numbers 9 1)
      [.insert ⟨1⟩ (TableFile.idOf ["t"]) (Database.number 5),
        .flushPage ⟨TableFile.idOf ["t"], 0⟩,
        .insert ⟨2⟩ (TableFile.idOf ["t"]) (Database.number 6), .complete ⟨1⟩ false]
      (by decide +kernel), by decide +kernel⟩
  obtain ⟨frame, hf, hshape⟩ := Option.map_eq_some_iff.1 hframe
  obtain ⟨howner, hrows⟩ := Prod.mk.inj hshape
  exact ⟨hfresh, steps, db, frame, hrun, hf, howner, hrows, Run.resident_agrees hfresh hrun _ _ hf⟩

end RowStore
