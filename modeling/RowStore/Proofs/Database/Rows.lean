import RowStore.Database.Rows
import RowStore.Proofs.Database.Fetch

/-!
# Inserting and deleting

An insertion that succeeds fills one empty slot, possibly of a page that it appended; a deletion
that succeeds empties one slot with the values of the row. Whatever else they do is not shown,
and no insertion takes a second round.
-/

namespace RowStore

namespace View

/-- A file may have got a page that was not there. -/
def MayGrow (v w : View) : Prop :=
  w = v ∨ ∃ page slots, v.cells? page = none ∧ w = v.grow page slots

/-- A transaction changes one slot of a page. -/
def Wrote (txn : TxnId) (spot : RowId) (content : Option (List Value)) (v w : View) : Prop :=
  ∃ cells, v.cells? spot.page = some cells ∧ spot.slot < cells.length ∧
    w = v.write spot.page txn (cells.set spot.slot content)

variable {v w : View} {txn : TxnId} {spot : RowId} {content : Option (List Value)}

theorem MayGrow.row?_eq (h : v.MayGrow w) (place : RowId) : w.row? place = v.row? place := by
  rcases h with rfl | ⟨page, slots, hnew, rfl⟩
  · rfl
  · exact row?_grow hnew slots place

theorem Wrote.row?_eq (h : Wrote txn spot content v w) (place : RowId) :
    w.row? place = if place = spot then content else v.row? place := by
  obtain ⟨cells, hcells, hlt, rfl⟩ := h
  exact row?_write hcells hlt content place

end View

namespace Database

variable {σ : Type} {locking : LockManager σ} {txn : TxnId} {page : PageId} {row : Row}
  {r : Registration} {db mid db' : Database σ}

/-- A step that changes nothing that is shown. -/
structure Quiet (db db' : Database σ) : Prop where
  coherent : db'.Coherent
  catalog_eq : db'.catalog = db.catalog
  volume_eq : db'.volume = db.volume
  view_eq : db'.view = db.view

namespace Quiet

theorem refl (h : db.Coherent) : Quiet db db := ⟨h, rfl, rfl, rfl⟩

theorem trans (h : Quiet db mid) (h' : Quiet mid db') : Quiet db db' :=
  ⟨h'.coherent, h'.catalog_eq.trans h.catalog_eq, h'.volume_eq.trans h.volume_eq,
    h'.view_eq.trans h.view_eq⟩

theorem withLocks (h : db.Coherent) (locks : σ) : Quiet db { db with locks := locks } :=
  ⟨h.withLocks locks, rfl, rfl, rfl⟩

theorem of_failed (h : db.Coherent) (hdb : db' = { db with locks := db'.locks }) :
    Quiet db db' := by
  rw [hdb]
  exact withLocks h _

theorem of_fetched {frame : Frame} (h : Fetched txn page .readOnly db frame db') : Quiet db db' :=
  ⟨h.coherent, h.catalog_eq, h.volume_eq, h.view_eq⟩

end Quiet

/-- A change to a page that was fetched for writing. -/
theorem Fetched.keepPage {frame : Frame} {p : Page}
    (h : Fetched txn page .readWrite db frame mid) (hp : p.Sound) (hid : p.id = frame.page.id)
    (hschema : p.schema = frame.page.schema) (hlayout : p.layout = frame.page.layout)
    (hstatus : p.status = frame.page.status) (hbefore : p.before = frame.page.before) :
    ∃ db', (Database.keepPage txn frame p).run mid = (.ok (), db') ∧ db'.Coherent ∧
      db'.catalog = db.catalog ∧ db'.volume = db.volume ∧
      db'.view = db.view.write page txn p.cells := by
  have hdirty : frame.page.isDirty = true := h.isDirty rfl
  have hmark : p.markDirty (some txn) = { p with status := .dirty (some txn) } := by
    rw [Page.markDirty_eq, if_pos (by simpa only [Page.isDirty, hstatus] using hdirty)]
  have hb := h.coherent.backed page frame h.resident
  have hanchor : (p.markDirty (some txn)).anchor = frame.page.anchor := by
    simp only [hmark, Page.anchor, Page.isDirty, if_true, hbefore]
    exact (if_pos hdirty).symm
  have hb' := hb.replace (hp.markDirty (some txn)) (by rw [hmark, hid]) (by rw [hmark, hschema])
    (by rw [hmark, hlayout]) hanchor
  have hget := Cache.get?_modify h.resident hb.handle_eq fun _ => p.markDirty (some txn)
  obtain ⟨hcoherent, hview⟩ := h.coherent.setFrame hb' ((hget page).trans (if_pos rfl))
    (fun q hne => .inl ((hget q).trans (if_neg hne))) (h.coherent.wellKeyed.adjust _ _)
    (Nat.le_trans (Nat.le_of_eq (Cache.size_modify _ _ _)) h.coherent.size_le) h.coherent.loading
  refine ⟨_, rfl, hcoherent, h.catalog_eq, h.volume_eq, hview.trans ?_⟩
  have hdraft : (p.markDirty (some txn)).draft? = some ⟨some txn, p.cells⟩ := by
    rw [hmark]
    rfl
  have hmid : mid.view = db.view.write page txn frame.page.cells := h.view_eq
  rw [hdraft, hmid]
  exact View.ext rfl (Function.update_idem _ _ _)

theorem Fetched.belongs {access : Access} {frame : Frame}
    (h : Fetched txn page access db frame mid)
    (hr : db.catalog.registration page.table = .ok r) :
    frame.page.BelongsTo r.file ∧ frame.page.id = page := by
  have hb := h.coherent.backed page frame h.resident
  obtain ⟨s, hs, hbelongs⟩ := hb.belongs
  rw [h.catalog_eq, hr] at hs
  cases hs
  exact ⟨hbelongs, hb.id_eq⟩

/-- The row was put into an empty slot of a page. -/
structure InsertedInto (txn : TxnId) (page : PageId) (row : Row) (change : Change)
    (db db' : Database σ) : Prop where
  coherent : db'.Coherent
  catalog_eq : db'.catalog = db.catalog
  volume_eq : db'.volume = db.volume
  values_eq : change.row.values = row.values
  wrote : ∃ slot, change.row.place = some ⟨page, slot⟩ ∧ db.view.row? ⟨page, slot⟩ = none ∧
    View.Wrote txn ⟨page, slot⟩ (some row.values) db.view db'.view

/-- Inserting into a page with room fails only if the page cannot be fetched for writing. -/
theorem Coherent.insertInto {cells : Cells} {answer : Except StorageError (Option Change)}
    (h : db.Coherent) (hr : db.catalog.registration page.table = .ok r)
    (htypes : row.schema.types = r.file.schema.types)
    (hfits : Row.AllFit row.schema.types row.values) (hcells : db.view.cells? page = some cells)
    (hroom : none ∈ cells)
    (hrun : (Database.insertInto locking txn page row).run db = (answer, db')) :
    (∃ e, answer = .error e ∧ db' = { db with locks := db'.locks }) ∨
      ∃ change, answer = .ok (some change) ∧ InsertedInto txn page row change db db' := by
  rcases hfetch : (Database.fetch locking txn page .readWrite []).run db with ⟨fetched, mid⟩
  rw [Database.insertInto, Action.run_bind, hfetch] at hrun
  rcases h.fetch hfetch with ⟨e, rfl, hmid⟩ | ⟨frame, rfl, hf⟩
  · obtain ⟨rfl, rfl⟩ := Prod.mk.inj hrun
    exact .inl ⟨e, rfl, hmid⟩
  · obtain ⟨hb, hid⟩ := hf.belongs hr
    have hshown := hf.shows
    rw [hcells] at hshown
    obtain rfl := Option.some.inj hshown
    obtain ⟨q, placed, hq⟩ := hb.sound.insert_ok (htypes.trans (hb.schema_eq ▸ rfl)) hroom
    obtain ⟨slot, hlt, hempty, hplace, hvalues, hset⟩ := hb.sound.cells_insert hq
    obtain ⟨-, _, -, -, heq⟩ := Page.insert_eq_ok.1 hq
    obtain ⟨after, hkeep, hcoherent, hcatalog, hvolume, hview⟩ := hf.keepPage
      (hb.sound.insert hfits hq) (by rw [heq]) (by rw [heq]) (by rw [heq]) (by rw [heq])
      (by rw [heq])
    simp only [hq, Action.run_bind, hkeep, Action.run_pure, Prod.mk.injEq] at hrun
    obtain ⟨rfl, rfl⟩ := hrun
    refine .inr ⟨_, rfl, hcoherent, hcatalog, hvolume, hvalues, slot, hid ▸ hplace, ?_, ?_⟩
    · rw [View.row?, hcells, Option.bind_some, hempty]
    · exact ⟨_, hcells, hlt, hset ▸ hview⟩

theorem Quiet.insertedInto {change : Change} (h : Quiet db mid)
    (h' : InsertedInto txn page row change mid db') : InsertedInto txn page row change db db' :=
  ⟨h'.coherent, h'.catalog_eq.trans h.catalog_eq, h'.volume_eq.trans h.volume_eq, h'.values_eq,
    h.view_eq ▸ h'.wrote⟩

/-- Going through pages for one with room, an insertion changes nothing until it finds one. -/
theorem Coherent.insertAmong {ns : List Nat} {answer : Except StorageError (Option Change)}
    (h : db.Coherent) (hr : db.catalog.registration r.file.id = .ok r)
    (htypes : row.schema.types = r.file.schema.types)
    (hfits : Row.AllFit row.schema.types row.values)
    (hrun : (Database.insertAmong locking r.file txn row ns).run db = (answer, db')) :
    (∃ e, answer = .error e ∧ Quiet db db') ∨ (answer = .ok none ∧ Quiet db db') ∨
      ∃ change page, answer = .ok (some change) ∧ page.table = r.file.id ∧
        InsertedInto txn page row change db db' := by
  induction ns generalizing db with
  | nil =>
    obtain ⟨rfl, rfl⟩ := Prod.mk.inj hrun
    exact .inr (.inl ⟨rfl, .refl h⟩)
  | cons n ns ih =>
    rcases hfetch : (Database.fetch locking txn (r.file.pageAt n) .readOnly []).run db with
      ⟨fetched, mid⟩
    rw [Database.insertAmong, Action.run_bind, hfetch] at hrun
    rcases h.fetch hfetch with ⟨e, rfl, hmid⟩ | ⟨frame, rfl, hf⟩
    · obtain ⟨rfl, rfl⟩ := Prod.mk.inj hrun
      exact .inl ⟨e, rfl, .of_failed h hmid⟩
    · have hquiet := Quiet.of_fetched hf
      have hr' : mid.catalog.registration r.file.id = .ok r := hf.catalog_eq ▸ hr
      simp only at hrun
      by_cases hfull : frame.page.emptySlots = 0
      · rw [if_pos hfull] at hrun
        rcases ih hf.coherent hr' hrun with ⟨e, rfl, hq⟩ | ⟨rfl, hq⟩ | ⟨change, page, rfl, ht, hi⟩
        · exact .inl ⟨e, rfl, hquiet.trans hq⟩
        · exact .inr (.inl ⟨rfl, hquiet.trans hq⟩)
        · exact .inr (.inr ⟨change, page, rfl, ht, hquiet.insertedInto hi⟩)
      · rw [if_neg hfull] at hrun
        obtain ⟨hb, -⟩ := hf.belongs hr
        have hroom : none ∈ frame.page.cells :=
          Decidable.not_not.1 fun hno => hfull (hb.sound.emptySlots_eq_zero.2 hno)
        have hshown : mid.view.cells? (r.file.pageAt n) = some frame.page.cells :=
          hf.coherent.cells?_view hf.resident
        rcases hinto : (Database.insertInto locking txn (r.file.pageAt n) row).run mid with
          ⟨result, after⟩
        rw [Action.run_bind, hinto] at hrun
        rcases hf.coherent.insertInto hr' htypes hfits hshown hroom hinto with
          ⟨e, rfl, hafter⟩ | ⟨change, rfl, hi⟩
        · obtain ⟨rfl, rfl⟩ := Prod.mk.inj hrun
          exact .inl ⟨e, rfl, hquiet.trans (.of_failed hf.coherent hafter)⟩
        · obtain ⟨rfl, rfl⟩ := Prod.mk.inj hrun
          exact .inr (.inr ⟨change, _, rfl, rfl, hquiet.insertedInto hi⟩)

/-- A page without rows was appended to a table. -/
structure Grown (r : Registration) (page : PageId) (db db' : Database σ) : Prop where
  coherent : db'.Coherent
  catalog_eq : db'.catalog = db.catalog
  volume_eq : db'.volume = (r.file.allocate db.volume).2
  table_eq : page.table = r.file.id
  new : db.view.cells? page = none
  view_eq : ∃ slots, 0 < slots ∧ db'.view = db.view.grow page slots

theorem Coherent.allocate (h : db.Coherent) (hr : db.catalog.registration r.file.id = .ok r)
    (hsmall : r.file.pageCount db.volume < 0x100000000) :
    ∃ page db', (Database.allocate r.file).run db = (.ok page, db') ∧ Grown r page db db' := by
  obtain ⟨htables, layout, hlayout, hstored⟩ := h.tables.allocate hr hsmall
  have hnew : db.catalog.stored? db.volume (r.file.allocate db.volume).1 = none := by
    cases hs : db.catalog.stored? db.volume (r.file.allocate db.volume).1 with
    | none => rfl
    | some p =>
      obtain ⟨s, hs, hp⟩ := Catalog.stored?_eq_some.1 hs
      obtain rfl : r = s := Except.ok.inj (hr.symm.trans hs)
      have := TableFile.number_lt_of_readPage hp
      rw [TableFile.number_allocate hsmall] at this
      exact absurd this (Nat.lt_irrefl _)
  have hbacked (q : PageId) (f : Frame) (hq : db.cache.frames.get? q = some f) :
      f.Backed db.catalog (r.file.allocate db.volume).2 q := by
    refine (h.backed q f hq).of_stored ?_
    rw [hstored, if_neg]
    rintro rfl
    obtain ⟨p, hp, -⟩ := (h.backed _ f hq).source
    rw [hnew] at hp
    cases hp
  have habsent : db.cache.frames.get? (r.file.allocate db.volume).1 = none := by
    cases hf : db.cache.frames.get? (r.file.allocate db.volume).1 with
    | none => rfl
    | some f =>
      obtain ⟨p, hp, -⟩ := (h.backed _ f hf).source
      rw [hnew] at hp
      cases hp
  refine ⟨_, _, rfl, ⟨htables, hbacked, h.wellKeyed, h.size_le, h.loading⟩, rfl, rfl, rfl, ?_,
    layout.slots, (Page.layout_of_ofSchema hlayout).2, ?_⟩
  · rw [cells?_view_of_absent habsent, hnew]
    rfl
  · refine View.ext (funext fun q => ?_) rfl
    simp only [view, View.grow, Function.update_apply, hstored]
    split
    · rw [Option.map_some, Page.cells_reread, Page.cells_blank]
    · rfl

/-- A page is appended when nothing has changed yet that is shown. -/
theorem Quiet.allocate (h : Quiet db mid) (hr : db.catalog.registration r.file.id = .ok r)
    (hsmall : r.file.pageCount db.volume < 0x100000000) :
    ∃ grown, (Database.allocate r.file).run mid = (.ok (r.file.allocate db.volume).1, grown) ∧
      Grown r (r.file.allocate db.volume).1 db grown := by
  obtain ⟨page, grown, hgrow, hg⟩ := h.coherent.allocate (h.catalog_eq ▸ hr) (h.volume_eq ▸ hsmall)
  obtain rfl : page = (r.file.allocate db.volume).1 := by
    rw [← h.volume_eq]
    exact (Except.ok.inj (congrArg Prod.fst hgrow)).symm
  exact ⟨grown, hgrow, hg.coherent, hg.catalog_eq.trans h.catalog_eq, h.volume_eq ▸ hg.volume_eq,
    hg.table_eq, h.view_eq ▸ hg.new, h.view_eq ▸ hg.view_eq⟩

/-- The page that was appended has room. -/
theorem Grown.room (h : Grown r page db mid) :
    ∃ cells, mid.view.cells? page = some cells ∧ none ∈ cells := by
  obtain ⟨slots, hpos, hview⟩ := h.view_eq
  refine ⟨Cells.blank slots, ?_, List.mem_replicate.2 ⟨Nat.ne_of_gt hpos, rfl⟩⟩
  rw [hview, View.cells?_grow h.new, if_pos rfl]

/-- A failed insertion shows no row more or less; it may have appended a page. -/
structure Fruitless (db db' : Database σ) : Prop where
  coherent : db'.Coherent
  catalog_eq : db'.catalog = db.catalog
  mayGrow : db.view.MayGrow db'.view

/-- The row was put into an empty slot of its table, perhaps on a page appended for it. -/
structure Inserted (txn : TxnId) (table : TableId) (row : Row) (change : Change)
    (db db' : Database σ) : Prop where
  coherent : db'.Coherent
  catalog_eq : db'.catalog = db.catalog
  values_eq : change.row.values = row.values
  wrote : ∃ (w : View) (spot : RowId), db.view.MayGrow w ∧ spot.page.table = table ∧
    change.row.place = some spot ∧ w.row? spot = none ∧
    View.Wrote txn spot (some row.values) w db'.view

theorem Quiet.fruitless (h : Quiet db db') : Fruitless db db' :=
  ⟨h.coherent, h.catalog_eq, .inl h.view_eq⟩

theorem InsertedInto.inserted {change : Change} (h : InsertedInto txn page row change db db') :
    Inserted txn page.table row change db db' := by
  obtain ⟨slot, hplace, hempty, hwrote⟩ := h.wrote
  exact ⟨h.coherent, h.catalog_eq, h.values_eq, _, ⟨page, slot⟩, .inl rfl, rfl, hplace, hempty,
    hwrote⟩

theorem Grown.mayGrow (h : Grown r page db mid) : db.view.MayGrow mid.view := by
  obtain ⟨slots, -, hview⟩ := h.view_eq
  exact .inr ⟨page, slots, h.new, hview⟩

theorem Grown.insertedInto {change : Change} (h : Grown r page db mid)
    (h' : InsertedInto txn page row change mid db') :
    Inserted txn page.table row change db db' := by
  obtain ⟨slot, hplace, hempty, hwrote⟩ := h'.wrote
  exact ⟨h'.coherent, h'.catalog_eq.trans h.catalog_eq, h'.values_eq, mid.view, ⟨page, slot⟩,
    h.mayGrow, rfl, hplace, hempty, hwrote⟩

section

variable (h : db.Coherent) (hr : db.catalog.registration r.file.id = .ok r)
  (hsmall : r.file.pageCount db.volume < 0x100000000)
  (hfits : Row.AllFit row.schema.types row.values)

include h hr hsmall hfits

/-- One round stores the row or fails: the appended page has room. -/
theorem Coherent.insertRound {answer : Except StorageError (Option Change)}
    (htypes : row.schema.types = r.file.schema.types)
    (hrun : (Database.insertRound locking r.file txn row).run db = (answer, db')) :
    (∃ e, answer = .error e ∧ Fruitless db db') ∨
      ∃ change, answer = .ok (some change) ∧ Inserted txn r.file.id row change db db' := by
  rcases hamong : (Database.insertAmong locking r.file txn row
    (List.range (r.file.pageCount db.volume))).run db with ⟨result, mid⟩
  rw [Database.insertRound, Action.run_bind, positions, Action.run_ask] at hrun
  simp only [Action.run_bind, hamong] at hrun
  rcases h.insertAmong hr htypes hfits hamong with
    ⟨e, rfl, hq⟩ | ⟨rfl, hq⟩ | ⟨change, page, rfl, ht, hi⟩
  · obtain ⟨rfl, rfl⟩ := Prod.mk.inj hrun
    exact .inl ⟨e, rfl, hq.fruitless⟩
  · obtain ⟨grown, hgrow, hg⟩ := hq.allocate hr hsmall
    simp only [Action.run_bind, hgrow] at hrun
    obtain ⟨cells, hshown, hroom⟩ := hg.room
    rcases hg.coherent.insertInto (by rw [hg.catalog_eq, hg.table_eq]; exact hr) htypes hfits
      hshown hroom hrun with ⟨e, rfl, hfail⟩ | ⟨change, rfl, hi⟩
    · have := hg.mayGrow
      rw [hfail]
      exact .inl ⟨e, rfl, hg.coherent.withLocks _, hg.catalog_eq, this⟩
    · exact .inr ⟨change, rfl, hg.table_eq ▸ hg.insertedInto hi⟩
  · obtain ⟨rfl, rfl⟩ := Prod.mk.inj hrun
    exact .inr ⟨change, rfl, ht ▸ hi.inserted⟩

theorem Coherent.insertRow {answer : Except StorageError Change}
    (hrun : (Database.insertRow locking r.file txn row).run db = (answer, db')) :
    (∃ e, answer = .error e ∧ Fruitless db db') ∨
      ∃ change, answer = .ok change ∧ Inserted txn r.file.id row change db db' := by
  unfold Database.insertRow at hrun
  split at hrun
  · obtain ⟨rfl, rfl⟩ := Prod.mk.inj hrun
    exact .inl ⟨_, rfl, (Quiet.refl h).fruitless⟩
  · next htypes =>
    have htypes := Decidable.not_not.1 htypes
    rcases hround : (Database.insertRound locking r.file txn row).run db with ⟨result, mid⟩
    rw [Action.run_bind, Action.run_ask] at hrun
    simp only [roundLimit, insertRounds, Action.run_bind, hround] at hrun
    rcases h.insertRound hr hsmall hfits htypes hround with ⟨e, rfl, hf⟩ | ⟨change, rfl, hi⟩
    · obtain ⟨rfl, rfl⟩ := Prod.mk.inj hrun
      exact .inl ⟨e, rfl, hf⟩
    · obtain ⟨rfl, rfl⟩ := Prod.mk.inj hrun
      exact .inr ⟨change, rfl, hi⟩

end

theorem Coherent.insert {table : TableId} {answer : Except StorageError Change} (h : db.Coherent)
    (hsmall : db.Small) (hvalid : row.Valid)
    (hrun : (Database.insert locking txn table row).run db = (answer, db')) :
    (∃ e, answer = .error e ∧ Fruitless db db') ∨
      ∃ change, answer = .ok change ∧ Inserted txn table row change db db' := by
  rw [Database.insert, Action.run_bind, lookup, Action.run_query] at hrun
  cases hr : db.catalog.registration table with
  | error e =>
    rw [hr] at hrun
    obtain ⟨rfl, rfl⟩ := Prod.mk.inj hrun
    exact .inl ⟨e, rfl, (Quiet.refl h).fruitless⟩
  | ok r =>
    rw [hr] at hrun
    obtain rfl := h.tables.id_eq table r hr
    exact h.insertRow hr (hsmall _ r hr) (Row.valid_iff_allFit.1 hvalid) hrun

/-- A slot that held the values of the row was emptied. -/
structure Deleted (txn : TxnId) (table : TableId) (row : Row) (change : Change)
    (db db' : Database σ) : Prop where
  coherent : db'.Coherent
  catalog_eq : db'.catalog = db.catalog
  volume_eq : db'.volume = db.volume
  values_eq : change.row.values = row.values
  wrote : ∃ spot : RowId, spot.page.table = table ∧ db.view.row? spot = some row.values ∧
    View.Wrote txn spot none db.view db'.view

theorem Quiet.deleted {table : TableId} {change : Change} (h : Quiet db mid)
    (h' : Deleted txn table row change mid db') : Deleted txn table row change db db' :=
  ⟨h'.coherent, h'.catalog_eq.trans h.catalog_eq, h'.volume_eq.trans h.volume_eq, h'.values_eq,
    h.view_eq ▸ h'.wrote⟩

/-- A page that was fetched for writing gives up a row whose values it has. -/
theorem Fetched.delete {frame : Frame} (row : Row)
    (h : Fetched txn page .readWrite db frame mid)
    (hr : db.catalog.registration page.table = .ok r)
    (htypes : r.file.schema.types = row.schema.types) (hmem : some row.values ∈ frame.page.cells) :
    ∃ q removed db', frame.page.delete row = .ok (q, removed) ∧
      (Database.keepPage txn frame q).run mid = (.ok (), db') ∧
      Deleted txn page.table row ⟨removed, frame.handle⟩ db db' := by
  obtain ⟨hb, hid⟩ := h.belongs hr
  obtain ⟨q, removed, hq⟩ := hb.sound.delete_ok (hb.schema_eq ▸ htypes) hmem
  obtain ⟨slot, hlt, hat, hvalues, hset⟩ := Page.cells_delete hq
  obtain ⟨_, -, -, heq⟩ := Page.delete_eq_ok.1 hq
  obtain ⟨after, hkeep, hcoherent, hcatalog, hvolume, hview⟩ := h.keepPage
    (hb.sound.delete hq) (by rw [heq]) (by rw [heq]) (by rw [heq]) (by rw [heq]) (by rw [heq])
  refine ⟨q, removed, after, hq, hkeep, hcoherent, hcatalog, hvolume, hvalues, ⟨page, slot⟩, rfl,
    ?_, ?_⟩
  · rw [View.row?, h.shows, Option.bind_some, hat]
  · exact ⟨_, h.shows, hlt, hset ▸ hview⟩

/-- Going through pages for the row, a deletion changes nothing until it finds it. -/
theorem Coherent.deleteAmong {ns : List Nat} {answer : Except StorageError Change}
    (h : db.Coherent) (hr : db.catalog.registration r.file.id = .ok r)
    (hrun : (Database.deleteAmong locking r.file txn row ns).run db = (answer, db')) :
    (∃ e, answer = .error e ∧ Quiet db db') ∨
      ∃ change, answer = .ok change ∧ Deleted txn r.file.id row change db db' := by
  induction ns generalizing db with
  | nil =>
    obtain ⟨rfl, rfl⟩ := Prod.mk.inj hrun
    exact .inl ⟨_, rfl, .refl h⟩
  | cons n ns ih =>
    rcases hfetch : (Database.fetch locking txn (r.file.pageAt n) .readOnly []).run db with
      ⟨fetched, mid⟩
    simp only [Database.deleteAmong, Action.run_bind, hfetch] at hrun
    rcases h.fetch hfetch with ⟨e, rfl, hmid⟩ | ⟨seen, rfl, hf⟩
    · obtain ⟨rfl, rfl⟩ := Prod.mk.inj hrun
      exact .inl ⟨e, rfl, .of_failed h hmid⟩
    · have hquiet := Quiet.of_fetched hf
      have hr' : mid.catalog.registration r.file.id = .ok r := hf.catalog_eq ▸ hr
      obtain ⟨hb, -⟩ := hf.belongs hr
      simp only at hrun
      by_cases hany : seen.page.rows.any (fun s => s.Same row) = true
      · rw [if_pos hany] at hrun
        obtain ⟨htypes, hmem⟩ := hb.sound.any_same.1 hany
        rw [hb.schema_eq] at htypes
        rcases hagain : (Database.fetch locking txn (r.file.pageAt n) .readWrite []).run mid with
          ⟨result, after⟩
        simp only [Action.run_bind, hagain] at hrun
        rcases hf.coherent.fetch hagain with ⟨e, rfl, hafter⟩ | ⟨frame, rfl, hw⟩
        · obtain ⟨rfl, rfl⟩ := Prod.mk.inj hrun
          exact .inl ⟨e, rfl, hquiet.trans (.of_failed hf.coherent hafter)⟩
        · have hsame : some frame.page.cells = some seen.page.cells :=
            hw.shows.symm.trans (hf.coherent.cells?_view hf.resident)
          obtain ⟨q, removed, last, hdelete, hkeep, hdeleted⟩ := hw.delete row hr' htypes
            (Option.some.inj hsame ▸ hmem)
          simp only [hdelete, Action.run_bind, hkeep] at hrun
          obtain ⟨rfl, rfl⟩ := Prod.mk.inj hrun
          exact .inr ⟨_, rfl, hquiet.deleted hdeleted⟩
      · rw [if_neg hany] at hrun
        rcases ih hf.coherent hr' hrun with ⟨e, rfl, hq⟩ | ⟨change, rfl, hd⟩
        · exact .inl ⟨e, rfl, hquiet.trans hq⟩
        · exact .inr ⟨change, rfl, hquiet.deleted hd⟩

theorem Coherent.delete {answer : Except StorageError Change} (h : db.Coherent)
    (hrun : (Database.delete locking txn row).run db = (answer, db')) :
    (∃ e, answer = .error e ∧ Quiet db db') ∨
      ∃ change spot, answer = .ok change ∧ row.place = some spot ∧
        Deleted txn spot.page.table row change db db' := by
  unfold Database.delete at hrun
  cases hplace : row.place with
  | none =>
    rw [hplace] at hrun
    obtain ⟨rfl, rfl⟩ := Prod.mk.inj hrun
    exact .inl ⟨_, rfl, .refl h⟩
  | some spot =>
    rw [hplace] at hrun
    simp only [Action.run_bind, lookup, Action.run_query] at hrun
    cases hr : db.catalog.registration spot.page.table with
    | error e =>
      rw [hr] at hrun
      obtain ⟨rfl, rfl⟩ := Prod.mk.inj hrun
      exact .inl ⟨e, rfl, .refl h⟩
    | ok r =>
      have hid := h.tables.id_eq _ r hr
      simp only [hr, deleteRow, Action.run_bind, positions, Action.run_ask] at hrun
      rcases h.deleteAmong (hid.symm ▸ hr) hrun with ⟨e, rfl, hq⟩ | ⟨change, rfl, hd⟩
      · exact .inl ⟨e, rfl, hq⟩
      · exact .inr ⟨change, spot, rfl, rfl, hid ▸ hd⟩

end Database

end RowStore
