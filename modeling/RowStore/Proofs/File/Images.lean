import RowStore.Proofs.File.Registrations

/-!
# Images

Where every table has a number, a name and a file of its own, storing a page replaces the image of
this page and of no other, and appending one leaves all images. Registering a table that has all
three of its own adds the images of its file.
-/

namespace RowStore

namespace Catalog

variable {c : Catalog} {v w : Volume} {id : TableId} {r s : Registration} {page : PageId}

/-- The image that the file of its table has for a page. -/
def image? (c : Catalog) (v : Volume) (page : PageId) : Option Bytes :=
  match c.registration page.table with
  | .ok r => r.file.image? v page
  | .error _ => none

theorem image?_of_registration (hr : c.registration page.table = .ok r) :
    c.image? v page = r.file.image? v page := by simp [image?, hr]

theorem image?_empty (v : Volume) (page : PageId) : Catalog.empty.image? v page = none := rfl

theorem image?_of_read_eq (hread : ∀ path, w.read path = v.read path) (page : PageId) :
    c.image? w page = c.image? v page := by
  unfold image?
  cases hr : c.registration page.table with
  | error e => rfl
  | ok r => exact TableFile.image?_congr (hread r.file.path) page

/-- No two tables have a number, a name or a file in common. -/
structure Apart (c : Catalog) : Prop where
  paired : c.Paired
  pageSize_pos : ∀ (id : TableId) (r : Registration), c.registration id = .ok r →
    0 < r.file.pageSize
  path_inj : ∀ (i j : TableId) (r s : Registration), c.registration i = .ok r →
    c.registration j = .ok s → r.file.path = s.file.path → i = j

/-- A table with a number, a name and a file that no other one has. -/
structure Admits (c : Catalog) (r : Registration) : Prop where
  pageSize_pos : 0 < r.file.pageSize
  not_displaces : ∀ (id : TableId) (s : Registration), c.registration id = .ok s →
    ¬ r.Displaces s
  path_ne : ∀ (id : TableId) (s : Registration), c.registration id = .ok s →
    s.file.path ≠ r.file.path

theorem apart_empty : Catalog.empty.Apart :=
  ⟨paired_empty, fun _ _ hr => absurd hr registration_empty,
    fun _ _ _ _ hr => absurd hr registration_empty⟩

theorem admits_empty (hpos : 0 < r.file.pageSize) : Catalog.empty.Admits r :=
  ⟨hpos, fun _ _ hs => absurd hs registration_empty, fun _ _ hs => absurd hs registration_empty⟩

namespace Apart

theorem id_eq (h : c.Apart) (hr : c.registration id = .ok r) : r.file.id = id :=
  h.paired.id_eq id r (registration_eq_ok.1 hr)

/-- A change to the file of one table leaves the images of all others. -/
theorem image?_of_other (h : c.Apart) (hr : c.registration id = .ok r)
    (hother : ∀ path, path ≠ r.file.path → w.read path = v.read path)
    (ht : page.table ≠ id) : c.image? w page = c.image? v page := by
  unfold image?
  cases hs : c.registration page.table with
  | error e => rfl
  | ok s =>
    refine TableFile.image?_congr (hother _ fun hpath => ht ?_) page
    exact h.path_inj page.table id s r hs hr hpath

theorem image?_rewrites {p : Page} (h : c.Apart) (hr : c.registration p.id.table = .ok r)
    (hrewrites : r.file.Rewrites p v w) (page : PageId) :
    c.image? w page = if page = p.id then some p.encode else c.image? v page := by
  by_cases ht : page.table = p.id.table
  · have hr' : c.registration page.table = .ok r := ht ▸ hr
    rw [image?_of_registration hr', image?_of_registration hr']
    split
    · next heq => rw [heq, hrewrites.image]
    · next hne => exact hrewrites.image?_eq ht hne
  · rw [if_neg fun heq => ht (congrArg PageId.table heq)]
    exact h.image?_of_other hr hrewrites.read_eq ht

theorem image?_allocate (h : c.Apart) (hr : c.registration id = .ok r)
    (hsmall : r.file.pageCount v < 0x100000000) (page : PageId) :
    c.image? (r.file.allocate v).2 page =
      if page = (r.file.allocate v).1 then some (Bytes.zeros r.file.pageSize)
      else c.image? v page := by
  have hid := h.id_eq hr
  by_cases ht : page.table = id
  · have hr' : c.registration page.table = .ok r := ht ▸ hr
    rw [image?_of_registration hr', image?_of_registration hr']
    exact TableFile.image?_allocate hsmall (ht.trans hid.symm)
  · rw [if_neg fun heq => ht ((congrArg PageId.table heq).trans hid)]
    exact h.image?_of_other hr (fun path hne => TableFile.read_allocate_of_ne hne) ht

/-- The page that is appended had no image. -/
theorem image?_new (h : c.Apart) (hr : c.registration id = .ok r)
    (hsmall : r.file.pageCount v < 0x100000000) :
    c.image? v (r.file.allocate v).1 = none := by
  have hpos := h.pageSize_pos id r hr
  have hr' : c.registration (r.file.allocate v).1.table = .ok r := by
    rw [TableFile.id_allocate, h.id_eq hr]
    exact hr
  rw [image?_of_registration hr']
  refine Bytes.window?_eq_none hpos ?_
  rw [TableFile.offset_allocate hsmall, ← Nat.succ_mul]
  exact Nat.lt_mul_of_div_lt (Nat.lt_succ_self _) hpos

/-! ## A table that is added -/

theorem registration_add_of_ne (h : c.Apart) (hr : c.Admits r) (hne : id ≠ r.file.id) :
    (c.add r).registration id = c.registration id := by
  have hget : (c.add r).byId.get? id = c.byId.get? id := by
    rw [h.paired.byId_add, if_neg hne]
    refine filter_eq_self fun s hs => decide_eq_true fun hname => ?_
    exact hr.not_displaces id s (registration_eq_ok.2 hs) (.inr hname.symm)
  rw [registration, hget, registration]

theorem image?_add (h : c.Apart) (hr : c.Admits r) (v : Volume) (page : PageId) :
    (c.add r).image? v page =
      if page.table = r.file.id then r.file.image? v page else c.image? v page := by
  split
  · next heq => exact image?_of_registration (heq ▸ c.registration_add_self r)
  · next hne => rw [image?, h.registration_add_of_ne hr hne, image?]

/-- A page of a table that is not registered yet has no image. -/
theorem image?_of_admits (h : c.Apart) (hr : c.Admits r) (ht : page.table = r.file.id) :
    c.image? v page = none := by
  unfold image?
  cases hs : c.registration page.table with
  | error e => rfl
  | ok s => exact absurd (.inl (ht.symm.trans (h.id_eq hs).symm)) (hr.not_displaces _ s hs)

theorem add (h : c.Apart) (hr : c.Admits r) : (c.add r).Apart := by
  refine ⟨h.paired.add r, ?_, ?_⟩
  · intro id s hs
    rcases registration_add hs with ⟨-, rfl⟩ | ⟨-, hs⟩
    · exact hr.pageSize_pos
    · exact h.pageSize_pos id s hs
  · intro i j s t hs ht hpath
    rcases registration_add hs with ⟨rfl, rfl⟩ | ⟨-, hsold⟩
    · rcases registration_add ht with ⟨rfl, rfl⟩ | ⟨-, htold⟩
      · rfl
      · exact absurd hpath.symm (hr.path_ne j t htold)
    · rcases registration_add ht with ⟨rfl, rfl⟩ | ⟨-, htold⟩
      · exact absurd hpath (hr.path_ne i s hsold)
      · exact h.path_inj i j s t hsold htold hpath

end Apart

end Catalog

end RowStore
