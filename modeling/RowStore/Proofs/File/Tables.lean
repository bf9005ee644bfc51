import RowStore.Catalog
import RowStore.Proofs.File.Pages

/-!
# The files of all tables

Registered tables are stored in files of their own, so a page that is stored or appended in one
of them leaves the pages of all others as they were.
-/

namespace RowStore

namespace TableFile

variable {f : TableFile} {v w : Volume}

theorem readPage_of_read_eq (h : w.read f.path = v.read f.path) (page : PageId) :
    f.readPage w page = f.readPage v page := readPage_congr (image?_congr h page)

theorem Intact.of_read_eq (hi : f.Intact v) (h : w.read f.path = v.read f.path) : f.Intact w := by
  have hlen : w.length f.path = v.length f.path := by rw [Volume.length, h, Volume.length]
  exact ⟨hi.schema, hi.pageSize_lt, hi.layout, hlen ▸ hi.aligned⟩

end TableFile

namespace Catalog

variable {c : Catalog} {v w : Volume} {id : TableId} {r : Registration}

theorem registration_eq_ok : c.registration id = .ok r ↔ c.byId.get? id = some r := by
  unfold registration
  cases c.byId.get? id with
  | none => simp
  | some s => simp

/-- The page as its file has it. -/
def stored? (c : Catalog) (v : Volume) (page : PageId) : Option Page :=
  match c.registration page.table with
  | .ok r => (r.file.readPage v page).toOption
  | .error _ => none

/-- Every table is registered under its own number, with a file of its own. -/
structure Intact (c : Catalog) (v : Volume) : Prop where
  id_eq : ∀ (id : TableId) (r : Registration), c.registration id = .ok r → r.file.id = id
  file : ∀ (id : TableId) (r : Registration), c.registration id = .ok r → r.file.Intact v
  apart : ∀ (i j : TableId) (r s : Registration), c.registration i = .ok r →
    c.registration j = .ok s → r.file.path = s.file.path → i = j

theorem stored?_eq_some {page : PageId} {p : Page} :
    c.stored? v page = some p ↔
      ∃ r, c.registration page.table = .ok r ∧ r.file.readPage v page = .ok p := by
  unfold stored?
  cases hr : c.registration page.table with
  | error e => simp
  | ok r =>
    cases hp : r.file.readPage v page with
    | error e => simp [hp, Except.toOption]
    | ok q => simp [hp, Except.toOption]

theorem stored?_of_registration {page : PageId} (hr : c.registration page.table = .ok r) :
    c.stored? v page = (r.file.readPage v page).toOption := by simp [stored?, hr]

theorem registration_empty : Catalog.empty.registration id ≠ .ok r := by
  simp [registration, Catalog.empty]

theorem intact_empty (v : Volume) : Catalog.empty.Intact v :=
  ⟨fun _ _ hr => absurd hr registration_empty, fun _ _ hr => absurd hr registration_empty,
    fun _ _ _ _ hr => absurd hr registration_empty⟩

/-- What is still registered beside a table that is added was registered before. -/
theorem registration_add {s : Registration} (h : (c.add r).registration id = .ok s) :
    id = r.file.id ∧ s = r ∨ id ≠ r.file.id ∧ c.registration id = .ok s := by
  have herase {m : Keyed TableId Registration} {j : TableId}
      (hs : (m.erase j).get? id = some s) : m.get? id = some s := by
    rw [Keyed.get?_erase] at hs
    split at hs
    · cases hs
    · exact hs
  have hname (name : String) (hs : (c.removeName name).byId.get? id = some s) :
      c.byId.get? id = some s := by
    unfold removeName at hs
    split at hs
    · exact herase hs
    · exact hs
  have hs := registration_eq_ok.1 h
  simp only [add, Keyed.get?_put] at hs
  split at hs
  · next heq => exact .inl ⟨heq, (Option.some.inj hs).symm⟩
  · next hne =>
    refine .inr ⟨hne, registration_eq_ok.2 (hname r.name ?_)⟩
    unfold removeId at hs
    split at hs
    · exact herase hs
    · exact hs

/-- A table with a file of its own can be registered. -/
theorem Intact.add (h : c.Intact v) (hfile : r.file.Intact v)
    (hpath : ∀ (j : TableId) (s : Registration), c.registration j = .ok s →
      s.file.path ≠ r.file.path) : (c.add r).Intact v := by
  refine ⟨?_, ?_, ?_⟩
  · intro j s hs
    rcases registration_add hs with ⟨rfl, rfl⟩ | ⟨-, hs'⟩
    · rfl
    · exact h.id_eq j s hs'
  · intro j s hs
    rcases registration_add hs with ⟨rfl, rfl⟩ | ⟨-, hs'⟩
    · exact hfile
    · exact h.file j s hs'
  · intro i j s t hs ht heq
    rcases registration_add hs with ⟨rfl, rfl⟩ | ⟨-, hs'⟩
    · rcases registration_add ht with ⟨rfl, rfl⟩ | ⟨-, ht'⟩
      · rfl
      · exact absurd heq.symm (hpath j t ht')
    · rcases registration_add ht with ⟨rfl, rfl⟩ | ⟨-, ht'⟩
      · exact absurd heq (hpath i s hs')
      · exact h.apart i j s t hs' ht' heq

/-- A change to one file, told by what it does to the pages of that file. -/
theorem Intact.of_change (h : c.Intact v) (hr : c.registration id = .ok r)
    (hother : ∀ path, path ≠ r.file.path → w.read path = v.read path) (hfile : r.file.Intact w) :
    c.Intact w ∧ ∀ page, page.table ≠ id → c.stored? w page = c.stored? v page := by
  have hread {j : TableId} {s : Registration} (hs : c.registration j = .ok s) (hne : j ≠ id) :
      w.read s.file.path = v.read s.file.path :=
    hother _ fun hp => hne (h.apart j id s r hs hr hp)
  refine ⟨⟨h.id_eq, ?_, h.apart⟩, ?_⟩
  · intro j s hs
    by_cases hj : j = id
    · subst hj
      rw [hr] at hs
      cases hs
      exact hfile
    · exact (h.file j s hs).of_read_eq (hread hs hj)
  · intro page hne
    unfold stored?
    cases hs : c.registration page.table with
    | error e => rfl
    | ok s => simp only [TableFile.readPage_of_read_eq (hread hs hne)]

/-- Storing a page changes this page only. -/
theorem Intact.writePage {p : Page} (h : c.Intact v) (hr : c.registration p.id.table = .ok r)
    (hb : p.BelongsTo r.file) (hlt : p.id.number.toNat < r.file.pageCount v)
    (hw : r.file.writePage v p = .ok w) :
    c.Intact w ∧ ∀ page, c.stored? w page = if page = p.id then some p.reread
      else c.stored? v page := by
  have hi := h.file _ r hr
  obtain ⟨hintact, hstored⟩ := h.of_change hr
    (fun path hne => TableFile.read_of_writePage_of_ne hw hne) (.of_writePage hi hb hlt hw)
  refine ⟨hintact, ?_⟩
  intro page
  by_cases ht : page.table = p.id.table
  · have hr' : c.registration page.table = .ok r := ht ▸ hr
    rw [stored?_of_registration hr', stored?_of_registration hr',
      TableFile.readPage_of_writePage hi hb hlt hw]
    split <;> rfl
  · rw [hstored page ht, if_neg]
    rintro rfl
    exact ht rfl

/-- Appending a page adds this page only, without rows. -/
theorem Intact.allocate (h : c.Intact v) (hr : c.registration id = .ok r)
    (hsmall : r.file.pageCount v < 0x100000000) :
    c.Intact (r.file.allocate v).2 ∧
      ∃ layout, Layout.ofSchema r.file.schema r.file.pageSize = .ok layout ∧
        ∀ page, c.stored? (r.file.allocate v).2 page =
          if page = (r.file.allocate v).1 then
            some (Page.blank page r.file.schema layout).reread
          else c.stored? v page := by
  have hi := h.file _ r hr
  obtain ⟨hintact, hstored⟩ := h.of_change hr
    (fun path hne => TableFile.read_allocate_of_ne hne) (.allocate hi hsmall)
  obtain ⟨layout, hlayout⟩ := hi.layout
  refine ⟨hintact, layout, hlayout, ?_⟩
  intro page
  by_cases ht : page.table = id
  · have hr' : c.registration page.table = .ok r := ht ▸ hr
    rw [stored?_of_registration hr', stored?_of_registration hr',
      TableFile.readPage_allocate hsmall]
    split
    · rw [Page.empty_eq_ok hlayout hi.schema hi.pageSize_lt]
      rfl
    · rfl
  · rw [hstored page ht, if_neg]
    rintro rfl
    exact ht (h.id_eq id r hr)

end Catalog

end RowStore
