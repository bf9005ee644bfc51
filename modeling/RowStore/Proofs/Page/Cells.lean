import RowStore.Proofs.Page.Blank

/-!
# The values in a page

What a page shows is the values in its slots. A sound page has room when a slot of it is empty;
inserting fills such a slot, and deleting empties one that holds the values of the row.
-/

namespace RowStore

/-- The values in the slots of a page. -/
abbrev Cells := List (Option (List Value))

namespace Cells

/-- The values in a slot; a slot past the last holds none. -/
def at? (cells : Cells) (slot : Nat) : Option (List Value) := (cells[slot]?).join

def blank (slots : Nat) : Cells := List.replicate slots none

theorem at?_blank (slots i : Nat) : (blank slots).at? i = none := by
  simp only [at?, blank, List.getElem?_replicate]
  split <;> rfl

theorem at?_set {cells : Cells} {slot : Nat} (h : slot < cells.length)
    (content : Option (List Value)) (i : Nat) :
    at? (cells.set slot content) i = if i = slot then content else cells.at? i := by
  simp only [at?, List.getElem?_set]
  by_cases hi : slot = i
  · subst hi
    simp [h]
  · simp [hi, Ne.symm hi]

theorem lt_of_at?_eq_some {cells : Cells} {slot : Nat} {values : List Value}
    (h : cells.at? slot = some values) : slot < cells.length := by
  rw [at?, Option.join_eq_some_iff] at h
  exact (List.getElem?_eq_some_iff.1 h).1

end Cells

namespace Page

variable {p q : Page} {r placed : Row}

def cells (p : Page) : Cells := p.slots.map (Option.map Row.values)

theorem at?_cells (p : Page) (i : Nat) : p.cells.at? i = (p.row? i).map Row.values := by
  simp only [cells, Cells.at?, row?, List.getElem?_map]
  cases p.slots[i]? with
  | none => rfl
  | some content => cases content <;> rfl

theorem cells_reread (p : Page) : p.reread.cells = p.cells := by
  simp only [cells, reread, List.map_map]
  refine List.map_congr_left fun content _ => ?_
  cases content <;> rfl

/-- A page holds the same values as another one in the same slots, under the same places. -/
structure Restores (q p : Page) : Prop where
  id_eq : q.id = p.id
  header_eq : q.header = p.header
  cells_eq : q.cells = p.cells
  places_eq : ∀ i, (q.row? i).map Row.place = (p.row? i).map Row.place

/-- What comes back from the image of a page restores it. -/
theorem restores_reread (p : Page) : p.reread.Restores p := by
  refine ⟨rfl, rfl, cells_reread p, fun i => ?_⟩
  rw [row?_reread, Option.map_map]
  rfl

theorem cells_blank (page : PageId) (schema : Schema) (layout : Layout) :
    (Page.blank page schema layout).cells = Cells.blank layout.slots := by
  simp [cells, blank, Cells.blank]

theorem none_mem_cells : none ∈ p.cells ↔ ∃ i, i < p.slots.length ∧ p.row? i = none := by
  simp only [cells, List.mem_map, Option.map_eq_none_iff, exists_eq_right]
  constructor
  · intro hmem
    obtain ⟨i, hi⟩ := List.mem_iff_getElem?.1 hmem
    exact ⟨i, (List.getElem?_eq_some_iff.1 hi).1, by simp [row?, hi]⟩
  · rintro ⟨i, hlt, hi⟩
    refine List.mem_iff_getElem?.2 ⟨i, ?_⟩
    simpa [row?, hlt] using hi

theorem Sound.lowestEmpty?_eq_none (h : p.Sound) :
    p.header.lowestEmpty? = none ↔ none ∉ p.cells := by
  rw [SlotMap.lowestEmpty?_eq_none h.header, none_mem_cells, h.slots_eq, h.length_eq]
  constructor
  · rintro hall ⟨i, hlt, hi⟩
    have := hall i hlt
    rw [h.isSet_eq, hi] at this
    cases this
  · intro hno i hlt
    rw [h.isSet_eq, Option.isSome_iff_ne_none]
    exact fun hi => hno ⟨i, hlt, hi⟩

/-- The count of empty slots tells whether there is one. -/
theorem Sound.emptySlots_eq_zero (h : p.Sound) : p.emptySlots = 0 ↔ none ∉ p.cells := by
  have hle : p.header.used ≤ p.header.slots := by
    rw [SlotMap.used_eq h.header]
    exact Nat.le_trans List.countP_le_length (Nat.le_of_eq List.length_range)
  rw [← h.lowestEmpty?_eq_none, SlotMap.lowestEmpty?_eq_none h.header,
    ← SlotMap.used_eq_slots h.header, emptySlots, ← h.slots_eq]
  omega

theorem Sound.length_cells (h : p.Sound) : p.cells.length = p.layout.slots := by
  rw [cells, List.length_map, h.length_eq]

/-- A row of the right types goes into a page with room. -/
theorem Sound.insert_ok (h : p.Sound) (htypes : r.schema.types = p.schema.types)
    (hroom : none ∈ p.cells) : ∃ q placed, p.insert r = .ok (q, placed) := by
  cases hslot : p.header.lowestEmpty? with
  | none => exact absurd hroom (h.lowestEmpty?_eq_none.1 hslot)
  | some slot => exact ⟨_, _, insert_eq_ok.2 ⟨htypes, slot, hslot, rfl, rfl⟩⟩

theorem Sound.cells_insert (h : p.Sound) (hq : p.insert r = .ok (q, placed)) :
    ∃ slot, slot < p.cells.length ∧ p.cells.at? slot = none ∧
      placed.place = some ⟨p.id, slot⟩ ∧ placed.values = r.values ∧
      q.cells = p.cells.set slot (some r.values) := by
  obtain ⟨-, slot, hslot, rfl, rfl⟩ := insert_eq_ok.1 hq
  obtain ⟨hlt, hempty, -⟩ := (SlotMap.lowestEmpty?_eq_some h.header).1 hslot
  refine ⟨slot, ?_, ?_, rfl, rfl, by simp [cells, List.map_set]⟩
  · rwa [h.length_cells, ← h.slots_eq]
  · rw [h.isSet_eq, Option.isSome_eq_false_iff, Option.isNone_iff_eq_none] at hempty
    rw [at?_cells, hempty]
    rfl

theorem some_mem_cells {values : List Value} :
    some values ∈ p.cells ↔ ∃ i s, p.row? i = some s ∧ s.values = values := by
  simp only [cells, List.mem_map, Option.map_eq_some_iff]
  constructor
  · rintro ⟨_, hmem, s, rfl, hs⟩
    obtain ⟨i, hi⟩ := List.mem_iff_getElem?.1 hmem
    exact ⟨i, s, row?_eq_some.2 hi, hs⟩
  · rintro ⟨i, s, hi, hs⟩
    exact ⟨some s, List.mem_iff_getElem?.2 ⟨i, row?_eq_some.1 hi⟩, s, rfl, hs⟩

theorem mem_rows {s : Row} : s ∈ p.rows ↔ ∃ i, p.row? i = some s := by
  simp only [rows, List.mem_filterMap, exists_eq_right, row?_eq_some]
  exact List.mem_iff_getElem?

/-- Looking for a row among the rows of a page is looking for its values in the slots. -/
theorem Sound.any_same (h : p.Sound) :
    p.rows.any (fun s => s.Same r) = true ↔
      p.schema.types = r.schema.types ∧ some r.values ∈ p.cells := by
  simp only [List.any_eq_true, mem_rows, some_mem_cells, decide_eq_true_eq]
  constructor
  · rintro ⟨s, ⟨i, hi⟩, hs⟩
    exact ⟨(h.housed i s hi).types_eq ▸ hs.1, i, s, hi, hs.2⟩
  · rintro ⟨htypes, i, s, hi, hs⟩
    exact ⟨s, ⟨i, hi⟩, (h.housed i s hi).types_eq.trans htypes, hs⟩

theorem Sound.delete_ok (h : p.Sound) (htypes : p.schema.types = r.schema.types)
    (hmem : some r.values ∈ p.cells) : ∃ q removed, p.delete r = .ok (q, removed) := by
  obtain ⟨i, s, hi, hs⟩ := some_mem_cells.1 hmem
  have hholds : holds r (p.row? i) = true := by
    simp [holds, hi, Row.Same, (h.housed i s hi).types_eq, htypes, hs]
  have hfound : (p.slots.findIdx? (holds r)).isSome = true := by
    rw [List.findIdx?_isSome, List.any_eq_true]
    exact ⟨some s, List.mem_iff_getElem?.2 ⟨i, row?_eq_some.1 hi⟩, hi ▸ hholds⟩
  obtain ⟨k, hk⟩ := Option.isSome_iff_exists.1 hfound
  cases hhint : p.hintedSlot? r with
  | none => exact ⟨_, _, delete_eq_ok.2 ⟨k, by simp [slotOf?, hhint, hk], rfl, rfl⟩⟩
  | some slot => exact ⟨_, _, delete_eq_ok.2 ⟨slot, by simp [slotOf?, hhint], rfl, rfl⟩⟩

theorem cells_delete (hq : p.delete r = .ok (q, placed)) :
    ∃ slot, slot < p.cells.length ∧ p.cells.at? slot = some r.values ∧
      placed.values = r.values ∧ q.cells = p.cells.set slot none := by
  obtain ⟨slot, hslot, rfl, rfl⟩ := delete_eq_ok.1 hq
  obtain ⟨s, hs, hsame⟩ := row?_of_slotOf? hslot
  have hat : p.cells.at? slot = some r.values := by
    rw [at?_cells, hs, Option.map_some, hsame.2]
  exact ⟨slot, Cells.lt_of_at?_eq_some hat, hat, rfl, by simp [cells, List.map_set]⟩

end Page

end RowStore
