import Mathlib.Order.CompletePartialOrder
import Mathlib.Order.Interval.Set.Disjoint
import RowStore.Proofs.Page.Images

/-!
# How a page is divided

The map and the slots lie in the page one behind the other, without touching each other, and there
are as many slots as go in. Their number comes from one division that counts in bits, although the
map takes whole bytes. No slot is lost by that: what the rows leave of a page is a number of whole
bytes, and the bits of the map go into it if and only if the bytes that hold them do.
-/

namespace RowStore

namespace Layout

variable {l : Layout} {schema : Schema} {rowSize pageSize a b m n slot : Nat}

theorem extent_mono (rowSize : Nat) (h : m ≤ n) : extent rowSize m ≤ extent rowSize n := by
  have hslots : m * rowSize ≤ n * rowSize := Nat.mul_le_mul_right _ h
  simp only [extent]
  omega

/-- So many slots go into a page, with their map. -/
theorem extent_le_iff : extent rowSize n ≤ pageSize ↔ n ≤ slotsFor rowSize pageSize := by
  constructor
  · intro h
    by_contra hlt
    have hmore := Nat.le_trans (extent_mono rowSize (Nat.lt_of_not_le hlt)) h
    exact absurd hmore (Nat.not_le_of_lt (lt_extent_succ_slotsFor rowSize pageSize))
  · intro h
    exact Nat.le_trans (extent_mono rowSize h) (extent_slotsFor_le rowSize pageSize)

/-- One slot takes a row, and one byte of map. -/
theorem slotsFor_pos_iff : 0 < slotsFor rowSize pageSize ↔ rowSize + 1 ≤ pageSize := by
  have hone : extent rowSize 1 = rowSize + 1 := by
    simp only [extent]
    omega
  rw [← hone]
  exact extent_le_iff.symm

/-- The bytes of a page that a slot takes. -/
def slotSpan (l : Layout) (slot : Nat) : Set Nat :=
  Set.Ico (l.slotOffset slot) (l.slotOffset slot + l.rowSize)

theorem slotSpan_disjoint (h : a < b) : Disjoint (l.slotSpan a) (l.slotSpan b) := by
  have hend : l.slotOffset a + l.rowSize ≤ l.slotOffset b := by
    have hle : (a + 1) * l.rowSize ≤ b * l.rowSize := Nat.mul_le_mul_right _ h
    rw [Nat.succ_mul] at hle
    simp only [slotOffset]
    omega
  rw [slotSpan, slotSpan, Set.Ico_disjoint_Ico]
  omega

theorem slotSpan_subset (hslot : slot < l.slots) :
    l.slotSpan slot ⊆ Set.Ico l.headerSize (l.slotOffset l.slots) := by
  rintro k ⟨hfrom, hto⟩
  obtain ⟨j, rfl⟩ := Nat.exists_eq_add_of_le hfrom
  exact ⟨Nat.le_trans (l.headerSize_le_slotOffset slot) hfrom,
    slotOffset_add_lt hslot (Nat.lt_of_add_lt_add_left hto)⟩

/-- A page is shared out among its map, its slots and what is left over. -/
structure Divides (schema : Schema) (pageSize : Nat) (l : Layout) : Prop where
  pageSize_eq : l.pageSize = pageSize
  rowSize_eq : l.rowSize = schema.rowSize
  pageSize_pos : 0 < pageSize
  slots_pos : 0 < l.slots
  bits : l.slots ≤ 8 * l.headerSize ∧ 8 * l.headerSize < l.slots + 8
  inside : l.headerSize + l.slots * l.rowSize ≤ pageSize
  span_inside : ∀ i, i < l.slots → l.slotSpan i ⊆ Set.Ico l.headerSize pageSize
  spans_apart : ∀ i j, i ≠ j → Disjoint (l.slotSpan i) (l.slotSpan j)
  maximal : pageSize < (l.slots + 1 + 7) / 8 + (l.slots + 1) * l.rowSize
  fits_iff : ∀ n, (n + 7) / 8 + n * l.rowSize ≤ pageSize ↔ n ≤ l.slots

theorem divides_of_ofSchema (h : ofSchema schema pageSize = .ok l) :
    l.Divides schema pageSize := by
  obtain ⟨rfl, hpos⟩ := Page.layout_of_ofSchema h
  have hinside := extent_slotsFor_le schema.rowSize pageSize
  refine
    { pageSize_eq := rfl
      rowSize_eq := rfl
      pageSize_pos := Nat.lt_of_lt_of_le (Nat.succ_pos _) (slotsFor_pos_iff.1 hpos)
      slots_pos := hpos
      bits := ?_
      inside := hinside
      span_inside := ?_
      spans_apart := ?_
      maximal := lt_extent_succ_slotsFor _ _
      fits_iff := fun n => extent_le_iff }
  · simp only [headerSize]
    omega
  · intro i hi
    exact (slotSpan_subset hi).trans (Set.Ico_subset_Ico_right hinside)
  · intro i j hne
    rcases Nat.lt_or_gt_of_ne hne with hlt | hlt
    · exact slotSpan_disjoint hlt
    · exact (slotSpan_disjoint hlt).symm

/-- Pages have a layout as soon as they have room for one row and one byte of map. Map and slots
then lie inside the page and apart from each other, and no layout has more slots. -/
theorem ofSchema_divides (schema : Schema) (pageSize : Nat) :
    ((∃ l, ofSchema schema pageSize = .ok l) ↔ schema.rowSize + 1 ≤ pageSize) ∧
      (∀ l, ofSchema schema pageSize = .ok l → l.Divides schema pageSize) ∧
      ∀ e, ofSchema schema pageSize = .error e →
        e = .invalidSchema (.rowTooLarge schema.rowSize pageSize) := by
  refine ⟨?_, fun l => divides_of_ofSchema, ?_⟩
  · rw [← slotsFor_pos_iff]
    constructor
    · rintro ⟨l, hl⟩
      obtain ⟨rfl, hpos⟩ := Page.layout_of_ofSchema hl
      exact hpos
    · intro hpos
      exact ⟨_, if_neg (Nat.ne_of_gt hpos)⟩
  · intro e he
    simp only [ofSchema] at he
    split at he
    · cases he
      rfl
    · cases he

/-- A page of 4096 bytes has 113 slots of 36 bytes, 15 bytes of map, and 13 bytes left over. -/
example : ofSchema ⟨[⟨.int, some "id"⟩, ⟨.text 32, some "name"⟩]⟩ 4096 = .ok ⟨4096, 36, 113⟩ := rfl

end Layout

end RowStore
