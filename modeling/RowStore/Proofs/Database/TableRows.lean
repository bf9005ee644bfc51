import Mathlib.Data.List.Intervals
import RowStore.Proofs.Database.Scan
import RowStore.Proofs.File.Listing

/-!
# The rows of a table as a list

The rows that a table shows are a list, in the order of the pages and of the slots on them. A page
that is fetched has its piece of the list, and what the pages from a position on have is the rest of
the list from there.
-/

namespace RowStore

/-- What `Row.facts` tells of a row. -/
abbrev Row.Facts := List ColumnType × List Value × Option RowId

namespace View

/-- The rows that the page at a position of a file shows, in the order of their slots. -/
def pageRows (v : View) (file : TableFile) (n : Nat) : List Row.Facts :=
  let contents := ((v.cells? (file.pageAt n)).getD []).mapIdx fun slot content =>
    content.map fun values => (file.schema.types, values, some ⟨file.pageAt n, slot⟩)
  contents.filterMap fun row => row

end View

/-- The rows that a table shows, in the order of the pages and slots. -/
def Database.tableRows {σ : Type} (db : Database σ) (file : TableFile) : List Row.Facts :=
  (List.range (file.pageCount db.volume)).flatMap (db.view.pageRows file)

/-- Of such rows those that are on the page at a position, or on a later one. -/
def Row.Facts.fromPage (rows : List Row.Facts) (n : Nat) : List Row.Facts :=
  rows.filter fun row => row.2.2.any fun spot => n ≤ spot.page.number.toNat

/-- A page in memory has the rows that are shown of it. -/
theorem View.pageRows_eq {v : View} {file : TableFile} {n : Nat} {p : Page}
    (hp : p.BelongsTo file) (hid : p.id = file.pageAt n)
    (hcells : v.cells? (file.pageAt n) = some p.cells) :
    v.pageRows file n = p.rows.map Row.facts := by
  have hcontents : (p.cells.mapIdx fun slot content => content.map fun values =>
      ((file.schema.types, values, some ⟨file.pageAt n, slot⟩) : Row.Facts)) =
      p.slots.map (Option.map Row.facts) := by
    refine List.ext_getElem? fun slot => ?_
    rw [List.getElem?_mapIdx, Page.cells, List.getElem?_map, List.getElem?_map]
    rcases hslot : p.slots[slot]? with _ | _ | row
    · rfl
    · rfl
    · have hhoused := hp.sound.housed slot row (Page.row?_eq_some.2 hslot)
      simp [Row.facts, hhoused.types_eq, hhoused.place_eq, hp.schema_eq, hid]
  rw [pageRows, hcells, Option.getD_some, hcontents, Page.rows, List.filterMap_map,
    List.map_filterMap]
  rfl

theorem View.page_of_mem_pageRows {v : View} {file : TableFile} {n : Nat} {row : Row.Facts}
    (h : row ∈ v.pageRows file n) : ∃ slot, row.2.2 = some ⟨file.pageAt n, slot⟩ := by
  obtain ⟨content, hmem, hcontent⟩ := List.mem_filterMap.1 h
  obtain ⟨slot, hslot, rfl⟩ := List.mem_mapIdx.1 hmem
  obtain ⟨values, -, rfl⟩ := Option.map_eq_some_iff.1 hcontent
  exact ⟨slot, rfl⟩

theorem View.fromPage_pageRows (v : View) (file : TableFile) {m : Nat} (hm : m < 0x100000000)
    (n : Nat) : Row.Facts.fromPage (v.pageRows file m) n =
      if n ≤ m then v.pageRows file m else [] := by
  have hnumber : (file.pageAt m).number.toNat = m := View.number_pageAt hm
  split
  · next hle =>
    refine List.filter_eq_self.2 fun row hrow => ?_
    obtain ⟨slot, hplace⟩ := View.page_of_mem_pageRows hrow
    simpa [hplace, hnumber] using hle
  · next hlt =>
    refine List.filter_eq_nil_iff.2 fun row hrow => ?_
    obtain ⟨slot, hplace⟩ := View.page_of_mem_pageRows hrow
    simpa [hplace, hnumber] using hlt

/-- The rows of some pages that are on a page or a later one are those of the later pages. -/
theorem View.fromPage_flatMap {v : View} {file : TableFile} {ns : List Nat}
    (hns : ∀ m ∈ ns, m < 0x100000000) (n : Nat) :
    Row.Facts.fromPage (ns.flatMap (v.pageRows file)) n =
      (ns.filter (n ≤ ·)).flatMap (v.pageRows file) := by
  induction ns with
  | nil => rfl
  | cons m ns ih =>
    obtain ⟨hm, hns⟩ := List.forall_mem_cons.1 hns
    have hrest := ih hns
    have hfirst := v.fromPage_pageRows file hm n
    unfold Row.Facts.fromPage at hfirst hrest ⊢
    rw [List.flatMap_cons, List.filter_append, hfirst, hrest]
    by_cases hle : n ≤ m <;> simp [hle]

/-- Where all page numbers are told apart, the rows from a page on are those of the pages left. -/
theorem Database.fromPage_tableRows {σ : Type} {db : Database σ} {file : TableFile}
    (hsmall : file.pageCount db.volume ≤ 0x100000000) (n : Nat) :
    Row.Facts.fromPage (db.tableRows file) n =
      (List.range' n (file.pageCount db.volume - n)).flatMap (db.view.pageRows file) := by
  rw [tableRows, View.fromPage_flatMap fun m hm => Nat.lt_of_lt_of_le (List.mem_range.1 hm) hsmall,
    ← List.Ico.zero_bot, List.Ico.filter_le, Nat.zero_max, List.Ico]

end RowStore
