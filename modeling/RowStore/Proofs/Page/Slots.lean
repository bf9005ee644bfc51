import RowStore.Proofs.Page.Cells

/-!
# Choosing a slot

A row goes into the lowest empty slot of a page. Taking the stored row out again, by the place that
it was given, leads back to the very page that it was put into, whatever equal rows there are.
-/

namespace RowStore

namespace Page

/-- The lowest slot of the page without a row. -/
structure LowestEmpty (p : Page) (slot : Nat) : Prop where
  lt : slot < p.slotCount
  empty : p.row? slot = none
  lowest : ∀ i, i < slot → (p.row? i).isSome = true

/-- Every slot of the page has a row. -/
def Full (p : Page) : Prop := ∀ i, i < p.slotCount → (p.row? i).isSome = true

variable {p q : Page} {row placed : Row} {slot : Nat}

theorem Sound.full_iff (h : p.Sound) : p.Full ↔ none ∉ p.cells := by
  rw [none_mem_cells, h.length_eq]
  constructor
  · rintro hfull ⟨i, hlt, hi⟩
    have hsome := hfull i hlt
    rw [hi] at hsome
    cases hsome
  · intro hno i hlt
    rw [Option.isSome_iff_ne_none]
    exact fun hi => hno ⟨i, hlt, hi⟩

/-- The map finds no empty slot where there is none. -/
theorem Sound.full_of_lowestEmpty? (h : p.Sound) (hnone : p.header.lowestEmpty? = none) :
    p.Full := h.full_iff.2 (h.lowestEmpty?_eq_none.1 hnone)

/-- The empty slot that the map finds is the lowest one. -/
theorem Sound.lowestEmpty_of_lowestEmpty? (h : p.Sound)
    (hslot : p.header.lowestEmpty? = some slot) : p.LowestEmpty slot := by
  obtain ⟨hlt, hempty, hlowest⟩ := (SlotMap.lowestEmpty?_eq_some h.header).1 hslot
  rw [h.isSet_eq] at hempty
  refine ⟨Nat.lt_of_lt_of_eq hlt h.slots_eq, by simpa using hempty, ?_⟩
  intro i hi
  rw [← h.isSet_eq]
  exact hlowest i hi

theorem LowestEmpty.not_full (h : p.LowestEmpty slot) : ¬ p.Full := by
  intro hfull
  have hsome := hfull slot h.lt
  rw [h.empty] at hsome
  cases hsome

/-- A row goes into the lowest empty slot. -/
theorem Sound.insert_lowestEmpty (h : p.Sound) (hq : p.insert row = .ok (q, placed)) :
    ∃ slot, p.LowestEmpty slot ∧ placed = { row with place := some ⟨p.id, slot⟩ } ∧
      q = { p with header := q.header, slots := p.slots.set slot (some placed) } := by
  obtain ⟨-, slot, hslot, rfl, rfl⟩ := insert_eq_ok.1 hq
  exact ⟨slot, h.lowestEmpty_of_lowestEmpty? hslot, rfl, rfl⟩

/-- A row that is taken out by the place that it was given leaves the page as it was. -/
theorem Sound.delete_insert {twin : Row} (h : p.Sound) (hq : p.insert row = .ok (q, placed))
    (hsame : twin.Same row) (hplace : twin.place = placed.place) :
    q.delete twin = .ok (p, { twin with place := none }) := by
  obtain ⟨-, slot, hslot, rfl, rfl⟩ := insert_eq_ok.1 hq
  obtain ⟨hlt, hclear, -⟩ := (SlotMap.lowestEmpty?_eq_some h.header).1 hslot
  have hempty := (h.lowestEmpty_of_lowestEmpty? hslot).empty
  have hlen : slot < p.slots.length := by rw [h.length_eq, ← h.slots_eq]; exact hlt
  let q : Page := { p with
    header := p.header.set slot
    slots := p.slots.set slot (some { row with place := some ⟨p.id, slot⟩ }) }
  have hholds : q.HoldsAt twin slot :=
    ⟨_, (row?_set hlen _ slot).trans (if_pos rfl), hsame.1.symm, hsame.2.symm⟩
  have hhint : q.hintedSlot? twin = some slot := hintedSlot?_eq_some.2 ⟨hplace, hholds⟩
  have hheader : (p.header.set slot).clear slot = p.header := h.header.clear_set hlt hclear
  have hslots : (p.slots.set slot (some { row with place := some ⟨p.id, slot⟩ })).set slot none =
      p.slots := by
    have hnone : p.slots[slot] = none := by simpa [row?, hlen] using hempty
    rw [List.set_set, ← hnone, List.set_getElem_self]
  refine delete_eq_ok.2 ⟨slot, by simp [slotOf?, hhint, q], rfl, ?_⟩
  rw [hheader, hslots]

end Page

end RowStore
