import RowStore.Proofs.Database.Origin

/-!
# Stored images

Where no table displaces another one, a resident page is one of the pages of its table's file, so
flushing it replaces the image of this page and of no other. Whatever is done, the image that the
file has for a page is the one that was stored last for it, or else the one that was found when the
table was registered.
-/

namespace RowStore

/-- The image that a move stores for a page, or finds for it in the file of a table that it
registers. -/
def Move.image? {σ : Type} (m : Move σ) (page : PageId) : Option Bytes :=
  match m.deed with
  | .register r => if page.table = r.file.id then r.file.image? m.before.volume page else none
  | _ => (m.stores?.filter fun stored => stored.1 = page).map Prod.snd

/-- The last image that was stored or found for a page. -/
def History.image? {σ : Type} (page : PageId) (moves : List (Move σ)) : Option Bytes :=
  moves.findSome? fun m => m.image? page

/-- A page that stands at its place in a file. -/
structure Page.Fits (p : Page) (f : TableFile) (v : Volume) : Prop where
  schema_eq : p.schema = f.schema
  pageSize_eq : p.layout.pageSize = f.pageSize
  number_lt : p.id.number.toNat < f.pageCount v

theorem Page.Fits.of_shape {p q : Page} {f : TableFile} {v w : Volume} (h : q.Fits f v)
    (hshape : p.SameShape q) (hlength : v.length f.path ≤ w.length f.path) : p.Fits f w where
  schema_eq := hshape.schema_eq.trans h.schema_eq
  pageSize_eq := hshape.layout_eq ▸ h.pageSize_eq
  number_lt := hshape.id_eq ▸ Nat.lt_of_lt_of_le h.number_lt (Nat.div_le_div_right hlength)

namespace Database

variable {σ : Type} {db db' : Database σ} {page : PageId} {frame : Frame} {w : Volume}

/-- No table displaces another one, and every resident page stands at its place in the file of its
table. -/
structure Settled (db : Database σ) : Prop where
  tables : db.catalog.Apart
  housed : db.cache.Housed
  fits : ∀ (page : PageId) (frame : Frame), db.cache.frames.get? page = some frame →
    ∃ r, db.catalog.registration page.table = .ok r ∧ frame.page.Fits r.file db.volume

namespace Settled

/-- Flushing a resident page replaces its own image. -/
theorem rewrites {r : Registration} (h : db.Settled)
    (hf : db.cache.frames.get? page = some frame)
    (hr : db.catalog.registration page.table = .ok r)
    (hw : r.file.writePage db.volume frame.page = .ok w) :
    r.file.Rewrites frame.page db.volume w := by
  obtain ⟨s, hs, hfits⟩ := h.fits page frame hf
  obtain rfl := Except.ok.inj (hr.symm.trans hs)
  exact TableFile.rewrites_of_writePage hfits.pageSize_eq (TableFile.end_le hfits.number_lt) hw

/-- The image of a page after a resident one was flushed. -/
theorem image?_flushed {r : Registration} (h : db.Settled)
    (hf : db.cache.frames.get? page = some frame)
    (hr : db.catalog.registration page.table = .ok r)
    (hw : r.file.writePage db.volume frame.page = .ok w) (q : PageId) :
    db.catalog.image? w q =
      if q = page then some frame.page.encode else db.catalog.image? db.volume q := by
  have hid := (h.housed page frame hf).2
  have hrewrites := h.rewrites hf hr hw
  rw [← hid] at hr ⊢
  exact h.tables.image?_rewrites hr hrewrites q

/-- A resident page has an image. -/
theorem image?_of_resident (h : db.Settled) (hf : db.cache.frames.get? page = some frame) :
    ∃ r image, db.catalog.registration page.table = .ok r ∧
      r.file.image? db.volume page = some image := by
  obtain ⟨r, hr, hfits⟩ := h.fits page frame hf
  have hinside := TableFile.end_le hfits.number_lt
  rw [(h.housed page frame hf).2] at hinside
  exact ⟨r, _, hr, Bytes.window?_of_le hinside⟩

end Settled

theorem Settled.ofCapacity {capacity : Nat} (htables : db.catalog.Apart)
    (hcache : db.cache = Cache.ofCapacity capacity) : db.Settled := by
  refine ⟨htables, hcache ▸ Cache.housed_ofCapacity capacity, ?_⟩
  intro page frame hf
  rw [hcache] at hf
  cases hf

end Database

namespace Move

variable {σ : Type} {locking : LockManager σ} {m : Move σ} {page stored : PageId} {image : Bytes}

theorem image?_of_stores (h : m.stores? = some (stored, image)) (page : PageId) :
    m.image? page = if page = stored then some image else none := by
  unfold Move.image?
  split
  · next r hdeed => simp [stores?, hdeed] at h
  · by_cases heq : page = stored
    · simp [h, heq, Option.filter_some]
    · simp [h, heq, Ne.symm heq, Option.filter_some]

theorem image?_of_nothing (h : m.stores? = none) (hdeed : ∀ r, m.deed ≠ .register r)
    (page : PageId) : m.image? page = none := by
  unfold Move.image?
  split
  · next r hr => exact absurd hr (hdeed r)
  · simp [h]

theorem Orderly.admits {r : Registration} (h : m.Orderly) (hdeed : m.deed = .register r) :
    m.before.catalog.Admits r := by
  unfold Orderly at h
  rwa [hdeed] at h

theorem Made.apart (h : m.Made locking) (horderly : m.Orderly) (hbefore : m.before.catalog.Apart) :
    m.after.catalog.Apart := by
  rcases h.catalog_cases with ⟨r, hdeed, hcatalog⟩ | ⟨-, hcatalog⟩
  · rw [hcatalog]
    exact hbefore.add (horderly.admits hdeed)
  · rwa [hcatalog]

/-- Every registration stays. -/
theorem Made.keeps (h : m.Made locking) (horderly : m.Orderly) (hbefore : m.before.catalog.Apart)
    {id : TableId} {r : Registration} (hr : m.before.catalog.registration id = .ok r) :
    m.after.catalog.registration id = .ok r := by
  rcases h.catalog_cases with ⟨s, hdeed, hcatalog⟩ | ⟨-, hcatalog⟩
  · rw [hcatalog]
    exact hbefore.paired.registration_add_of_apart hr
      ((horderly.admits hdeed).not_displaces id r hr)
  · rwa [hcatalog]

/-- As registrations stay and no file gets shorter, a table that has few pages had few before. -/
theorem Made.small (h : m.Made locking) (horderly : m.Orderly) (hbefore : m.before.catalog.Apart)
    (hsmall : m.after.Small) : m.before.Small := by
  intro id r hr
  refine Nat.lt_of_le_of_lt ?_ (hsmall id r (h.keeps horderly hbefore hr))
  exact Nat.div_le_div_right (h.writes.length_le _)

/-- The images after a move are those that it stored or found, and the old ones besides. -/
theorem Made.image? (h : m.Made locking) (horderly : m.Orderly) (hbefore : m.before.Settled)
    (hsmall : m.before.Small) (page : PageId) :
    m.after.catalog.image? m.after.volume page =
      (m.image? page).or (m.before.catalog.image? m.before.volume page) := by
  have hcatalog := h.catalog_eq
  cases h.writes with
  | nothing hnone hread =>
    rw [Catalog.image?_of_read_eq hread]
    rcases h.catalog_cases with ⟨r, hdeed, hcatalog⟩ | ⟨hdeed, hcatalog⟩
    · have hadmits := horderly.admits hdeed
      rw [hcatalog, hbefore.tables.image?_add hadmits]
      simp only [Move.image?, hdeed]
      split
      · next heq => rw [hbefore.tables.image?_of_admits hadmits heq, Option.or_none]
      · rfl
    · rw [hcatalog, image?_of_nothing hnone hdeed]
      rfl
  | flushed stored frame r hdeed hstores hf hr hwrite =>
    rw [hdeed] at hcatalog
    rw [hcatalog, image?_of_stores hstores]
    refine (hbefore.image?_flushed hf hr hwrite page).trans ?_
    split <;> rfl
  | appended file hdeed hstores hvolume =>
    unfold Orderly at horderly
    rw [hdeed] at hcatalog horderly
    obtain ⟨id, r, hr, rfl⟩ := horderly
    rw [hcatalog, hvolume, image?_of_stores hstores]
    refine (hbefore.tables.image?_allocate hr (hsmall id r hr) page).trans ?_
    split <;> rfl

/-- A page that had an image gets another one only while it is resident. -/
theorem Made.resident_of_image (h : m.Made locking) (horderly : m.Orderly)
    (hbefore : m.before.Settled) (hsmall : m.before.Small)
    (hold : (m.before.catalog.image? m.before.volume page).isSome)
    (hnew : (m.image? page).isSome) : m.before.cache.isResident page = true := by
  cases h.writes with
  | nothing hnone _ =>
    rcases h.catalog_cases with ⟨r, hdeed, -⟩ | ⟨hdeed, -⟩
    · have hadmits := horderly.admits hdeed
      simp only [Move.image?, hdeed] at hnew
      split at hnew
      · next heq =>
        rw [hbefore.tables.image?_of_admits hadmits heq] at hold
        cases hold
      · cases hnew
    · rw [image?_of_nothing hnone hdeed] at hnew
      cases hnew
  | flushed stored frame r _ hstores hf _ _ =>
    rw [image?_of_stores hstores] at hnew
    split at hnew
    · next heq => exact heq ▸ Cache.isResident_of_get? hf
    · cases hnew
  | appended file hdeed hstores _ =>
    unfold Orderly at horderly
    rw [hdeed] at horderly
    obtain ⟨id, r, hr, rfl⟩ := horderly
    rw [image?_of_stores hstores] at hnew
    split at hnew
    · next heq =>
      rw [heq, hbefore.tables.image?_new hr (hsmall id r hr)] at hold
      cases hold
    · cases hnew

/-- The pages that are resident after a move are at their places. -/
theorem Made.settled (h : m.Made locking) (horderly : m.Orderly) (hbefore : m.before.Settled) :
    m.after.Settled := by
  have hgrows := h.writes.length_le
  refine ⟨h.apart horderly hbefore.tables, h.alters.housed hbefore.housed, ?_⟩
  intro page frame hf
  rcases h.alters.source hf with ⟨old, hold, -, hshape⟩ | ⟨-, -, p, hread, hshape⟩
  · obtain ⟨r, hr, hfits⟩ := hbefore.fits page old hold
    exact ⟨r, h.keeps horderly hbefore.tables hr, hfits.of_shape hshape (hgrows _)⟩
  · obtain ⟨r, hr, hp⟩ := Catalog.stored?_eq_some.1 hread
    have hbelongs := TableFile.belongsTo_of_readPage hp
    have hid : p.id = page := Catalog.id_of_stored? hread
    have hfits : p.Fits r.file m.before.volume :=
      ⟨hbelongs.schema_eq, hbelongs.pageSize_eq, hid ▸ TableFile.number_lt_of_readPage hp⟩
    exact ⟨r, h.keeps horderly hbefore.tables hr, hfits.of_shape hshape (hgrows _)⟩

end Move

namespace Trace

variable {σ : Type} {locking : LockManager σ} {start db : Database σ} {moves : List (Move σ)}
  {page : PageId}

theorem settled (h : Trace locking start moves db) (hstart : start.Settled)
    (horderly : ∀ m ∈ moves, m.Orderly) : db.Settled := by
  induction h with
  | nil => exact hstart
  | cons _ hmade ih =>
    obtain ⟨hm, hrest⟩ := List.forall_mem_cons.1 horderly
    exact hmade.settled hm (ih hrest)

theorem keeps (h : Trace locking start moves db) (hstart : start.Settled)
    (horderly : ∀ m ∈ moves, m.Orderly) {id : TableId} {r : Registration}
    (hr : start.catalog.registration id = .ok r) : db.catalog.registration id = .ok r := by
  induction h with
  | nil => exact hr
  | cons hmoves hmade ih =>
    obtain ⟨hm, hrest⟩ := List.forall_mem_cons.1 horderly
    exact hmade.keeps hm (hmoves.settled hstart hrest).tables (ih hrest)

/-- Wherever the tables have few pages, the image of a page is the last one that was stored or
found for it. -/
theorem image? (h : Trace locking start moves db) (hstart : start.Settled)
    (horderly : ∀ m ∈ moves, m.Orderly) (hsmall : db.Small) (page : PageId) :
    db.catalog.image? db.volume page =
      (History.image? page moves).or (start.catalog.image? start.volume page) := by
  induction h with
  | nil => rfl
  | @cons moves m hmoves hmade ih =>
    obtain ⟨hm, hrest⟩ := List.forall_mem_cons.1 horderly
    have hbefore := hmoves.settled hstart hrest
    have hsmaller := hmade.small hm hbefore.tables hsmall
    rw [hmade.image? hm hbefore hsmaller, ih hrest hsmaller, ← Option.or_assoc, History.image?,
      History.image?, List.findSome?_cons]
    cases m.image? page <;> rfl

/-- A page that is not resident and is not loaded keeps its image. -/
theorem keeps_image {image : Bytes} (h : Trace locking start moves db) (hstart : start.Settled)
    (horderly : ∀ m ∈ moves, m.Orderly) (hsmall : db.Small)
    (habsent : start.cache.isResident page = false)
    (himage : start.catalog.image? start.volume page = some image)
    (hloaded : ∀ m ∈ moves, m.loaded? ≠ some page) :
    db.cache.isResident page = false ∧ db.catalog.image? db.volume page = some image := by
  induction h with
  | nil => exact ⟨habsent, himage⟩
  | @cons _ m hmoves hmade ih =>
    obtain ⟨hm, hrest⟩ := List.forall_mem_cons.1 horderly
    obtain ⟨hnot, hloaded⟩ := List.forall_mem_cons.1 hloaded
    have hbefore := hmoves.settled hstart hrest
    have hsmaller := hmade.small hm hbefore.tables hsmall
    obtain ⟨hgone, hkept⟩ := ih hrest hsmaller hloaded
    refine ⟨?_, ?_⟩
    · cases hf : m.after.cache.frames.get? page with
      | none => exact Cache.isResident_of_absent hf
      | some frame =>
        rcases hmade.alters.source hf with ⟨old, hold, -⟩ | ⟨hload, -⟩
        · rw [Cache.isResident_of_get? hold] at hgone
          cases hgone
        · exact absurd hload hnot
    · have hnone : m.image? page = none := by
        refine Option.not_isSome_iff_eq_none.1 fun hsome => ?_
        have hresident := hmade.resident_of_image hm hbefore hsmaller (by simp [hkept]) hsome
        rw [hgone] at hresident
        cases hresident
      rw [hmade.image? hm hbefore hsmaller, hnone, hkept]
      rfl

end Trace

end RowStore
