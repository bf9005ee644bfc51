import RowStore.Proofs.Page.Codec

/-!
# Blank pages

An image of zeros reads as a page without rows.
-/

namespace RowStore

namespace Bytes

@[simp] theorem zeros_append_zeros (m n : Nat) : zeros m ++ zeros n = zeros (m + n) := by
  simp [zeros]

theorem fit_zeros {m n : Nat} (h : m ≤ n) : fit n (zeros m) = zeros n := by
  have htake : (zeros m).take n = zeros m := List.take_of_length_le (by simpa using h)
  rw [fit, htake, length_zeros, zeros_append_zeros, Nat.add_sub_cancel' h]

end Bytes

namespace SlotMap

/-- The map of a page without rows. -/
def blank (slots : Nat) : SlotMap := ⟨Bytes.zeros (byteCount slots), slots, 0⟩

theorem bitAt_zeros (n i : Nat) : bitAt (Bytes.zeros n) i = false := by
  rw [bitAt, Bytes.getD_zeros, bit_zero]

theorem isSet_blank (slots i : Nat) : (blank slots).isSet i = false := by
  rw [isSet_eq, show (blank slots).bits = Bytes.zeros (byteCount slots) from rfl, bitAt_zeros,
    Bool.and_false]

theorem wellFormed_blank (slots : Nat) : (blank slots).WellFormed := by
  refine wellFormed_of_isSet (Bytes.length_zeros _) (fun i _ => bitAt_zeros _ i) ?_
  have : (List.range slots).countP (blank slots).isSet = 0 := by
    rw [List.countP_eq_zero]
    intro i _
    simp [isSet_blank]
  exact this.symm

end SlotMap

namespace Page

variable {page : PageId} {schema : Schema} {layout : Layout}

/-- The page without rows. -/
def blank (page : PageId) (schema : Schema) (layout : Layout) : Page :=
  ⟨page, schema, layout, SlotMap.blank layout.slots, List.replicate layout.slots none, .clean, []⟩

theorem row?_blank (i : Nat) : (blank page schema layout).row? i = none := by
  simp only [row?, blank, List.getElem?_replicate]
  split <;> rfl

theorem Sound.blank (page : PageId) {pageSize : Nat}
    (h : Layout.ofSchema schema pageSize = .ok layout) :
    (blank page schema layout).Sound := by
  have hsize : layout.pageSize = pageSize := by
    obtain ⟨rfl, -⟩ := layout_of_ofSchema h
    rfl
  refine ⟨hsize ▸ h, SlotMap.wellFormed_blank _, rfl, List.length_replicate, ?_,
    ?_⟩
  · intro i
    rw [row?_blank]
    exact SlotMap.isSet_blank _ i
  · intro i r hr
    rw [row?_blank] at hr
    cases hr

theorem images_blank (n : Nat) :
    (List.replicate n none).flatMap (slotImage layout) = Bytes.zeros (n * layout.rowSize) := by
  induction n with
  | zero => simp [Bytes.zeros]
  | succ n ih =>
    rw [List.replicate_succ, List.flatMap_cons, ih, Nat.succ_mul, Nat.add_comm]
    exact Bytes.zeros_append_zeros _ _

theorem encode_blank {pageSize : Nat} (h : Layout.ofSchema schema pageSize = .ok layout) :
    (blank page schema layout).encode = Bytes.zeros layout.pageSize := by
  have hle := (Sound.blank page h).extent_le
  simp only [encode, blank, SlotMap.blank, images_blank, Bytes.zeros_append_zeros]
  exact Bytes.fit_zeros hle

/-- Where rows can be told from their bytes, zeros read as the blank page. -/
theorem empty_eq_ok {pageSize : Nat} (h : Layout.ofSchema schema pageSize = .ok layout)
    (hs : schema.Valid) (hsize : pageSize < 0x100000000) :
    Page.empty page schema pageSize = .ok (blank page schema layout).reread := by
  obtain ⟨rfl, -⟩ := layout_of_ofSchema h
  have := decode_encode (Sound.blank page h) hs hsize
  rwa [encode_blank h] at this

end Page

end RowStore
