import RowStore.Proofs.Database.View

/-!
# Coherence of memory and files

Every page in the cache stands for a page of a file. Going back to the image it keeps of itself,
a page shows what its file shows: for a page that was not changed this is the page as it is, for
a changed one the image taken before the first change.
-/

namespace RowStore

namespace Page

variable {p q : Page} {cells : Cells}

/-- The image that a page goes back to. -/
def anchor (p : Page) : Bytes := if p.isDirty then p.before else p.encode

/-- The page shows these values once it has gone back. -/
def RevertsTo (p : Page) (cells : Cells) : Prop :=
  ∃ b, decode p.id p.schema p.layout.pageSize p.anchor = .ok b ∧ b.cells = cells

theorem anchor_markDirty (p : Page) (owner? : Option TxnId) :
    (p.markDirty owner?).anchor = p.anchor := by
  rw [markDirty_eq]
  rfl

theorem anchor_of_clean (h : p.isDirty = false) : p.anchor = p.encode := by simp [anchor, h]

theorem beforeImage_of_revertsTo (hd : p.isDirty = true) (h : p.RevertsTo cells) :
    ∃ b, p.beforeImage = .ok b ∧ b.cells = cells := by
  simpa [RevertsTo, anchor, hd, beforeImage] using h

theorem Sound.revertsTo_self (h : p.Sound) (hs : p.schema.Valid)
    (hsize : p.layout.pageSize < 0x100000000) (hc : p.isDirty = false) : p.RevertsTo p.cells := by
  refine ⟨p.reread, ?_, p.cells_reread⟩
  rw [anchor_of_clean hc]
  exact decode_encode h hs hsize

theorem Sound.cells_eq_of_revertsTo (h : p.Sound) (hs : p.schema.Valid)
    (hsize : p.layout.pageSize < 0x100000000) (hc : p.isDirty = false) (hr : p.RevertsTo cells) :
    p.cells = cells := by
  obtain ⟨b, hb, rfl⟩ := hr
  rw [anchor_of_clean hc, decode_encode h hs hsize] at hb
  obtain rfl := Except.ok.inj hb
  exact p.cells_reread.symm

theorem RevertsTo.congr (h : p.RevertsTo cells) (hid : q.id = p.id) (hschema : q.schema = p.schema)
    (hlayout : q.layout = p.layout) (hanchor : q.anchor = p.anchor) : q.RevertsTo cells := by
  simpa only [RevertsTo, hid, hschema, hlayout, hanchor] using h

theorem draft?_of_clean (h : p.isDirty = false) : p.draft? = none := by
  unfold isDirty at h
  unfold draft?
  cases hs : p.status with
  | clean => rfl
  | dirty owner? => simp [hs] at h

theorem draft?_of_dirty (h : p.isDirty = true) : p.draft? = some ⟨p.dirtier?, p.cells⟩ := by
  unfold isDirty at h
  unfold draft? dirtier?
  cases hs : p.status with
  | clean => simp [hs] at h
  | dirty owner? => rfl

end Page

/-- A page in memory stands for a stored page, and going back would show what is stored. -/
structure Frame.Backed (c : Catalog) (v : Volume) (page : PageId) (frame : Frame) : Prop where
  handle_eq : frame.handle.page = page
  id_eq : frame.page.id = page
  belongs : ∃ r, c.registration page.table = .ok r ∧ frame.page.BelongsTo r.file
  source : ∃ q, c.stored? v page = some q ∧ frame.page.RevertsTo q.cells

namespace Frame.Backed

variable {c : Catalog} {v w : Volume} {page : PageId} {frame : Frame} {p : Page}

theorem sound (h : frame.Backed c v page) : frame.page.Sound := by
  obtain ⟨_, _, hb⟩ := h.belongs
  exact hb.sound

/-- A change that keeps the image to go back to. -/
theorem replace (h : frame.Backed c v page) (hp : p.Sound) (hid : p.id = frame.page.id)
    (hschema : p.schema = frame.page.schema) (hlayout : p.layout = frame.page.layout)
    (hanchor : p.anchor = frame.page.anchor) : Frame.Backed c v page { frame with page := p } := by
  obtain ⟨r, hr, hb⟩ := h.belongs
  obtain ⟨q, hq, hrevert⟩ := h.source
  exact ⟨h.handle_eq, hid.trans h.id_eq,
    ⟨r, hr, hp, hid ▸ hb.table_eq, hschema ▸ hb.schema_eq, hlayout ▸ hb.pageSize_eq⟩,
    q, hq, hrevert.congr hid hschema hlayout hanchor⟩

theorem touch (h : frame.Backed c v page) (txn : TxnId) (access : Access) :
    Frame.Backed c v page { frame with page := Cache.touch txn access frame.page } := by
  unfold Cache.touch
  split
  · exact h.replace (h.sound.markDirty _) (by rw [Page.markDirty_eq]) (by rw [Page.markDirty_eq])
      (by rw [Page.markDirty_eq]) (frame.page.anchor_markDirty _)
  · exact h

/-- What is stored for the page may be stored anew, as long as it shows the same. -/
theorem of_stored (h : frame.Backed c v page)
    (hst : (c.stored? w page).map Page.cells = (c.stored? v page).map Page.cells) :
    frame.Backed c w page := by
  obtain ⟨q, hq, hrevert⟩ := h.source
  rw [hq] at hst
  obtain ⟨q', hq', hcells⟩ := Option.map_eq_some_iff.1 hst
  exact ⟨h.handle_eq, h.id_eq, h.belongs, q', hq', hcells ▸ hrevert⟩

end Frame.Backed

namespace Catalog

variable {c : Catalog} {v : Volume} {page : PageId} {p : Page}

theorem id_of_stored? (h : c.stored? v page = some p) : p.id = page := by
  obtain ⟨r, -, hp⟩ := stored?_eq_some.1 h
  obtain ⟨-, image, -, hp⟩ := TableFile.readPage_eq_ok.1 hp
  exact Page.id_of_decode hp

theorem isDirty_of_stored? (h : c.stored? v page = some p) : p.isDirty = false := by
  obtain ⟨r, -, hp⟩ := stored?_eq_some.1 h
  obtain ⟨-, image, -, hp⟩ := TableFile.readPage_eq_ok.1 hp
  exact Page.isDirty_of_decode hp

/-- A page that was just read. -/
theorem Intact.backed (hc : c.Intact v) (h : c.stored? v page = some p) (serial : Nat) :
    Frame.Backed c v page ⟨⟨page, serial⟩, p⟩ := by
  obtain ⟨r, hr, hp⟩ := stored?_eq_some.1 h
  have hb := TableFile.belongsTo_of_readPage hp
  have hi := hc.file _ r hr
  exact ⟨rfl, id_of_stored? h, ⟨r, hr, hb⟩, p, h, hb.sound.revertsTo_self
    (hb.schema_eq ▸ hi.schema) (hb.pageSize_eq ▸ hi.pageSize_lt) (isDirty_of_stored? h)⟩

theorem Intact.cells_eq {frame : Frame} (hc : c.Intact v) (h : frame.Backed c v page)
    (hclean : frame.page.isDirty = false) :
    (c.stored? v page).map Page.cells = some frame.page.cells := by
  obtain ⟨r, hr, hb⟩ := h.belongs
  obtain ⟨q, hq, hrevert⟩ := h.source
  have hi := hc.file _ r hr
  rw [hq, Option.map_some, hb.sound.cells_eq_of_revertsTo (hb.schema_eq ▸ hi.schema)
    (hb.pageSize_eq ▸ hi.pageSize_lt) hclean hrevert]

end Catalog

namespace Cache

variable {c : Cache} {page : PageId} {frame : Frame}

/-- Changing the page behind the handle of a resident frame changes this frame only. -/
theorem get?_modify (hf : c.frames.get? page = some frame) (hh : frame.handle.page = page)
    (f : Page → Page) (q : PageId) :
    (c.modify frame.handle f).frames.get? q =
      if q = page then some { frame with page := f frame.page } else c.frames.get? q := by
  simp only [modify, Keyed.get?_adjust, hh]
  split
  · next hq => simp [hq, hf]
  · rfl

/-- A page has the frame that it had, or it was clean and has none. -/
def Spares (c d : Cache) (q : PageId) : Prop :=
  d.frames.get? q = c.frames.get? q ∨ d.frames.get? q = none ∧
    ∃ frame, c.frames.get? q = some frame ∧ frame.page.isDirty = false

@[simp] theorem size_modify (c : Cache) (h : Handle) (f : Page → Page) :
    (c.modify h f).size = c.size := Keyed.size_adjust _ _ _

end Cache

namespace Database

variable {σ : Type} {db : Database σ} {page : PageId} {frame : Frame}

/-- The tables have files of their own, every page in memory is backed by one of them, there are no
more pages than the cache may hold, and nothing is being loaded. -/
structure Coherent (db : Database σ) : Prop where
  tables : db.catalog.Intact db.volume
  backed : ∀ (page : PageId) (frame : Frame), db.cache.frames.get? page = some frame →
    frame.Backed db.catalog db.volume page
  wellKeyed : db.cache.frames.WellKeyed
  size_le : db.cache.size ≤ db.cache.capacity
  loading : db.cache.loading = []

theorem drafts_of_resident (h : db.cache.frames.get? page = some frame) :
    db.view.drafts page = frame.page.draft? := by simp [view, h]

theorem drafts_of_absent (h : db.cache.frames.get? page = none) : db.view.drafts page = none := by
  simp [view, h]

namespace Coherent

theorem withLocks (h : db.Coherent) (locks : σ) : Coherent { db with locks := locks } :=
  ⟨h.tables, h.backed, h.wellKeyed, h.size_le, h.loading⟩

/-- One frame is set to another that is backed, and other pages that are clean may be given up. -/
theorem setFrame {c : Cache} (h : db.Coherent) (hb : frame.Backed db.catalog db.volume page)
    (hget : c.frames.get? page = some frame) (hother : ∀ q, q ≠ page → db.cache.Spares c q)
    (hkeys : c.frames.WellKeyed) (hsize : c.size ≤ c.capacity) (hloading : c.loading = []) :
    Coherent { db with cache := c } ∧ view { db with cache := c } =
      ⟨db.view.saved, Function.update db.view.drafts page frame.page.draft?⟩ := by
  refine ⟨⟨h.tables, ?_, hkeys, hsize, hloading⟩, View.ext rfl (funext fun q => ?_)⟩
  · intro q f hq
    have hq : c.frames.get? q = some f := hq
    by_cases heq : q = page
    · subst heq
      rw [hget] at hq
      cases hq
      exact hb
    · rcases hother q heq with hsame | ⟨hnone, -⟩
      · exact h.backed q f (hsame ▸ hq)
      · rw [hnone] at hq
        cases hq
  · have hdrafts : (view { db with cache := c }).drafts q =
        (c.frames.get? q).bind fun f => f.page.draft? := rfl
    rw [hdrafts]
    simp only [Function.update_apply]
    split
    · next heq =>
      rw [heq, hget]
      rfl
    · next hne =>
      rcases hother q hne with hsame | ⟨hnone, f, hf, hclean⟩
      · rw [hsame]
        rfl
      · rw [hnone, drafts_of_resident hf, Page.draft?_of_clean hclean]
        rfl

/-- A resident page shows what memory has. -/
theorem cells?_view (h : db.Coherent) (hf : db.cache.frames.get? page = some frame) :
    db.view.cells? page = some frame.page.cells := by
  have hdraft := drafts_of_resident hf
  cases hd : frame.page.isDirty with
  | true =>
    rw [Page.draft?_of_dirty hd] at hdraft
    rw [View.cells?_of_draft hdraft]
  | false =>
    rw [Page.draft?_of_clean hd] at hdraft
    rw [View.cells?_of_no_draft hdraft]
    exact h.tables.cells_eq (h.backed page frame hf) hd

end Coherent

/-- A page that is not resident shows what its file has. -/
theorem cells?_view_of_absent (hf : db.cache.frames.get? page = none) :
    db.view.cells? page = (db.catalog.stored? db.volume page).map Page.cells := by
  rw [View.cells?_of_no_draft (drafts_of_absent hf)]
  rfl

/-- A page that shows something lies inside the file of a registered table. -/
theorem Coherent.number_lt {cells : Cells} (h : db.Coherent)
    (hcells : db.view.cells? page = some cells) :
    ∃ r, db.catalog.registration page.table = .ok r ∧
      page.number.toNat < r.file.pageCount db.volume := by
  have hstored {p : Page} (hp : db.catalog.stored? db.volume page = some p) :
      ∃ r, db.catalog.registration page.table = .ok r ∧
        page.number.toNat < r.file.pageCount db.volume := by
    obtain ⟨r, hr, hread⟩ := Catalog.stored?_eq_some.1 hp
    exact ⟨r, hr, TableFile.number_lt_of_readPage hread⟩
  cases hf : db.cache.frames.get? page with
  | none =>
    rw [cells?_view_of_absent hf] at hcells
    obtain ⟨p, hp, -⟩ := Option.map_eq_some_iff.1 hcells
    exact hstored hp
  | some frame =>
    obtain ⟨p, hp, -⟩ := (h.backed page frame hf).source
    exact hstored hp

/-- No table has used up the page numbers. -/
def Small (db : Database σ) : Prop :=
  ∀ (id : TableId) (r : Registration), db.catalog.registration id = .ok r →
    r.file.pageCount db.volume < 0x100000000

end Database

end RowStore
