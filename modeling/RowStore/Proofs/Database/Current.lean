import RowStore.Proofs.Database.Undo
import RowStore.Proofs.File.Listing

/-!
# The pages as they are now

The page of an identifier is the one in the cache, or else the one that its file has. Whether it is
in memory makes no difference to what its rows tell, to whether it is changed, and to who changed
it. Databases that are reached by calls, and by inserting into and deleting from the file of a
table, are coherent, so what they show says all of this.
-/

namespace RowStore

/-- Two pages of one place whose rows tell the same, slot by slot, both clean or changed last by the
same transaction. -/
structure Page.Alike (p q : Page) : Prop where
  id_eq : p.id = q.id
  layout_eq : p.layout = q.layout
  status_eq : p.status = q.status
  facts_eq : ∀ i, (p.row? i).map Row.facts = (q.row? i).map Row.facts

namespace Page

variable {p q : Page} {f : TableFile}

/-- The rows of a sound page have its types, and their slots as places. -/
theorem Sound.row?_facts (h : p.Sound) (i : Nat) :
    (p.row? i).map Row.facts =
      (p.cells.at? i).map fun values => (p.schema.types, values, some ⟨p.id, i⟩) := by
  rw [at?_cells]
  cases hr : p.row? i with
  | none => rfl
  | some r => simp [Row.facts, (h.housed i r hr).types_eq, (h.housed i r hr).place_eq]

/-- What a page waits to write tells whether it is changed, and by whom. -/
theorem status_of_draft? (h : p.draft? = q.draft?) : p.status = q.status := by
  unfold draft? at h
  cases hp : p.status <;> cases hq : q.status <;> simp_all

theorem BelongsTo.row?_facts_eq (hp : p.BelongsTo f) (hq : q.BelongsTo f) (hid : p.id = q.id)
    (hcells : p.cells = q.cells) (i : Nat) :
    (p.row? i).map Row.facts = (q.row? i).map Row.facts := by
  rw [hp.sound.row?_facts, hq.sound.row?_facts, hcells, hid, hp.schema_eq, hq.schema_eq]

theorem BelongsTo.alike (hp : p.BelongsTo f) (hq : q.BelongsTo f) (hid : p.id = q.id)
    (hcells : p.cells = q.cells) (hdraft : p.draft? = q.draft?) : p.Alike q :=
  ⟨hid, (hp.matches hq hid hcells).layout_eq, status_of_draft? hdraft,
    hp.row?_facts_eq hq hid hcells⟩

end Page

namespace Database

variable {σ : Type} {locking : LockManager σ} {db db' : Database σ} {page : PageId} {p : Page}

/-- The page as it is now: in the cache, or else in its file. -/
def current? (db : Database σ) (page : PageId) : Option Page :=
  ((db.cache.frames.get? page).map Frame.page).or (db.catalog.stored? db.volume page)

theorem current?_of_resident {frame : Frame} (hf : db.cache.frames.get? page = some frame) :
    db.current? page = some frame.page := by simp [current?, hf]

theorem current?_of_absent (hf : db.cache.frames.get? page = none) :
    db.current? page = db.catalog.stored? db.volume page := by simp [current?, hf]

/-- What is shown of a page. -/
structure Shown (db : Database σ) (page : PageId) (p : Page) : Prop where
  id_eq : p.id = page
  belongs : ∃ r, db.catalog.registration page.table = .ok r ∧ p.BelongsTo r.file
  cells?_eq : db.view.cells? page = some p.cells
  drafts_eq : db.view.drafts page = p.draft?

theorem Coherent.shown (h : db.Coherent) (hp : db.current? page = some p) : db.Shown page p := by
  cases hf : db.cache.frames.get? page with
  | some frame =>
    rw [current?_of_resident hf] at hp
    obtain rfl := Option.some.inj hp
    have hb := h.backed page frame hf
    exact ⟨hb.id_eq, hb.belongs, h.cells?_view hf, drafts_of_resident hf⟩
  | none =>
    rw [current?_of_absent hf] at hp
    obtain ⟨r, hr, hread⟩ := Catalog.stored?_eq_some.1 hp
    refine ⟨Catalog.id_of_stored? hp, ⟨r, hr, TableFile.belongsTo_of_readPage hread⟩, ?_, ?_⟩
    · rw [cells?_view_of_absent hf, hp]
      rfl
    · rw [drafts_of_absent hf, Page.draft?_of_clean (Catalog.isDirty_of_stored? hp)]

/-- A page that shows something is there. -/
theorem Coherent.current?_of_cells {cells : Cells} (h : db.Coherent)
    (hcells : db.view.cells? page = some cells) :
    ∃ p, db.current? page = some p ∧ p.cells = cells := by
  cases hf : db.cache.frames.get? page with
  | some frame =>
    refine ⟨frame.page, current?_of_resident hf, ?_⟩
    exact Option.some.inj ((h.cells?_view hf).symm.trans hcells)
  | none =>
    rw [cells?_view_of_absent hf] at hcells
    rw [current?_of_absent hf]
    exact Option.map_eq_some_iff.1 hcells

theorem Shown.belongsTo {r : Registration} (h : db.Shown page p)
    (hr : db.catalog.registration page.table = .ok r) : p.BelongsTo r.file := by
  obtain ⟨s, hs, hb⟩ := h.belongs
  obtain rfl : r = s := Except.ok.inj (hr.symm.trans hs)
  exact hb

/-- A page that shows something belongs to its file. -/
theorem Coherent.current?_belongsTo {r : Registration} {cells : Cells} (h : db.Coherent)
    (hr : db.catalog.registration page.table = .ok r)
    (hcells : db.view.cells? page = some cells) :
    ∃ p, db.current? page = some p ∧ p.BelongsTo r.file ∧ p.id = page ∧ p.cells = cells := by
  obtain ⟨p, hp, hsame⟩ := h.current?_of_cells hcells
  have hshown := h.shown hp
  exact ⟨p, hp, hshown.belongsTo hr, hshown.id_eq, hsame⟩

/-- Pages that show the same are alike, wherever they are. -/
theorem Coherent.alike (h : db.Coherent) (h' : db'.Coherent) (hcatalog : db'.catalog = db.catalog)
    (hcells : db'.view.cells? page = db.view.cells? page)
    (hdrafts : db'.view.drafts page = db.view.drafts page) :
    Option.Rel Page.Alike (db.current? page) (db'.current? page) := by
  cases hp : db.current? page with
  | some p =>
    have hshown := h.shown hp
    obtain ⟨q, hq, -⟩ := h'.current?_of_cells (hcells.trans hshown.cells?_eq)
    have hshown' := h'.shown hq
    obtain ⟨r, hr, hb⟩ := hshown.belongs
    have hb' := hshown'.belongsTo (hcatalog.symm ▸ hr)
    rw [hq]
    refine .some (hb.alike hb' (hshown.id_eq.trans hshown'.id_eq.symm) ?_ ?_)
    · exact Option.some.inj (hshown.cells?_eq.symm.trans (hcells.symm.trans hshown'.cells?_eq))
    · exact hshown.drafts_eq.symm.trans (hdrafts.symm.trans hshown'.drafts_eq)
  | none =>
    cases hq : db'.current? page with
    | some q =>
      obtain ⟨p, hp', -⟩ := h.current?_of_cells (hcells.symm.trans (h'.shown hq).cells?_eq)
      rw [hp] at hp'
      cases hp'
    | none => exact .none

/-! ## Changing one slot -/

/-- One slot of a page got a new content, if that is what was put there: the page with this handle
is in the cache, sound and changed last by this transaction, and no other slot of it and no other
page became different. -/
structure Revised (txn : TxnId) (page : PageId) (slot : Nat) (content : Option Row)
    (handle : Handle) (before : Page) (db db' : Database σ) : Prop where
  resident : ∃ frame, db'.cache.frames.get? page = some frame ∧ frame.handle = handle ∧
    frame.page.Sound ∧ frame.page.status = .dirty (some txn) ∧
    frame.page.layout = before.layout ∧
    ∀ i, (frame.page.row? i).map Row.facts =
      if i = slot then content.map Row.facts else (before.row? i).map Row.facts
  others : ∀ q, q ≠ page → Option.Rel Page.Alike (db.current? q) (db'.current? q)

/-- Two databases show the same, but for one page. -/
structure Beside (page : PageId) (db mid : Database σ) : Prop where
  catalog_eq : mid.catalog = db.catalog
  cells?_eq : ∀ q, q ≠ page → mid.view.cells? q = db.view.cells? q
  drafts_eq : ∀ q, q ≠ page → mid.view.drafts q = db.view.drafts q

theorem Quiet.beside (h : Quiet db db') (page : PageId) : Beside page db db' :=
  ⟨h.catalog_eq, fun _ _ => by rw [h.view_eq], fun _ _ => by rw [h.view_eq]⟩

theorem get?_of_keepPage {txn : TxnId} {frame : Frame} {mid : Database σ}
    (hkeep : (keepPage txn frame p).run mid = (.ok (), db'))
    (hf : mid.cache.frames.get? page = some frame) (hhandle : frame.handle.page = page) :
    db'.cache.frames.get? page = some { frame with page := p.markDirty (some txn) } := by
  obtain ⟨-, rfl⟩ := Prod.mk.inj hkeep
  exact (Cache.get?_modify hf hhandle _ page).trans (if_pos rfl)

/-- A page that was fetched for writing gets a new content in one slot. -/
theorem Fetched.revised {start mid : Database σ} {txn : TxnId} {r : Registration} {frame : Frame}
    {before : Page} {slot : Nat} {content : Option Row} (hstart : start.Coherent)
    (hbeside : Beside page start db) (hf : Fetched txn page .readWrite db frame mid)
    (hr : db.catalog.registration page.table = .ok r) (hbefore : before.BelongsTo r.file)
    (hid : before.id = page) (hcells : db.view.cells? page = some before.cells)
    (hsound : p.Sound) (hlt : slot < frame.page.slots.length)
    (hp : p = { frame.page with
      header := p.header, slots := frame.page.slots.set slot content })
    (hkeep : (Database.keepPage txn frame p).run mid = (.ok (), db')) :
    Revised txn page slot content frame.handle before start db' := by
  obtain ⟨hb, hfid⟩ := hf.belongs hr
  have hsame : frame.page.cells = before.cells :=
    Option.some.inj (hf.shows.symm.trans hcells)
  obtain ⟨after, hrun, hcoherent, hcatalog, -, hview⟩ := hf.keepPage hsound (by rw [hp])
    (by rw [hp]) (by rw [hp]) (by rw [hp]) (by rw [hp])
  obtain ⟨-, rfl⟩ := Prod.mk.inj (hrun.symm.trans hkeep)
  have hkept := get?_of_keepPage hkeep hf.resident
    (hf.coherent.backed page frame hf.resident).handle_eq
  obtain ⟨_, -, hbelongs⟩ := (hcoherent.backed page _ hkept).belongs
  refine ⟨⟨_, hkept, rfl, hbelongs.sound, ?_, ?_, ?_⟩, ?_⟩
  · rw [Page.markDirty_eq]
  · rw [Page.markDirty_eq, hp]
    exact (hb.matches hbefore (hfid.trans hid.symm) hsame).layout_eq
  · intro i
    have hrow : (p.markDirty (some txn)).row? i =
        if i = slot then content else frame.page.row? i := by
      rw [Page.markDirty_eq, hp]
      exact Page.row?_set hlt content i
    rw [hrow]
    split
    · rfl
    · exact hb.row?_facts_eq hbefore (hfid.trans hid.symm) hsame i
  · intro q hq
    refine hstart.alike hcoherent (hcatalog.trans hbeside.catalog_eq) ?_ ?_
    · rw [hview, View.cells?_write, if_neg hq, hbeside.cells?_eq q hq]
    · rw [hview, ← hbeside.drafts_eq q hq]
      exact Function.update_of_ne hq _ _

end Database

/-- What is reached from a database by calls, and by inserting into and deleting from the file of a
registered table. No step starts where a table has used up its page numbers. -/
inductive Reaches {σ : Type} (locking : LockManager σ) (start : Database σ) : Database σ → Prop
  | start : Reaches locking start start
  | call {db db' : Database σ} {call : Call} {answer : Except StorageError Answer} :
      Reaches locking start db → db.Small →
      (Database.perform locking call).run db = (answer, db') → Reaches locking start db'
  | insertRow {db db' : Database σ} {table : TableId} {r : Registration} {txn : TxnId}
      {row : { row : Row // row.Valid }} {answer : Except StorageError Change} :
      Reaches locking start db → db.Small → db.catalog.registration table = .ok r →
      (Database.insertRow locking r.file txn row.val).run db = (answer, db') →
      Reaches locking start db'
  | deleteRow {db db' : Database σ} {table : TableId} {r : Registration} {txn : TxnId} {row : Row}
      {answer : Except StorageError Change} :
      Reaches locking start db → db.Small → db.catalog.registration table = .ok r →
      (Database.deleteRow locking r.file txn row).run db = (answer, db') →
      Reaches locking start db'

namespace Reaches

variable {σ : Type} {locking : LockManager σ} {start db : Database σ} {steps : List (Step σ)}

theorem coherent (h : Reaches locking start db) (hfresh : start.Fresh) : db.Coherent := by
  induction h with
  | start => exact hfresh.coherent
  | call _ hsmall hrun ih => exact (ih.effect hsmall hrun).coherent.1
  | @insertRow db _ table r txn row _ _ hsmall hr hrun ih =>
    obtain rfl := ih.tables.id_eq table r hr
    rcases ih.insertRow hr (hsmall _ r hr) (Row.valid_iff_allFit.1 row.property) hrun with
      ⟨e, -, hf⟩ | ⟨change, -, hi⟩
    · exact hf.coherent
    · exact hi.coherent
  | @deleteRow db _ table r txn row _ _ _ hr hrun ih =>
    obtain rfl := ih.tables.id_eq table r hr
    rw [Database.deleteRow, Database.positions, Action.run_bind, Action.run_ask] at hrun
    rcases ih.deleteAmong hr hrun with ⟨e, -, hq⟩ | ⟨change, -, hd⟩
    · exact hq.coherent
    · exact hd.coherent

/-- A run reaches where it leads. -/
theorem of_run (h : Run locking start steps db) : Reaches locking start db := by
  induction h with
  | nil => exact .start
  | cons _ hsmall htaken ih => exact .call ih hsmall htaken

end Reaches

end RowStore
