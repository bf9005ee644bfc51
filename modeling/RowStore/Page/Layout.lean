import RowStore.Schema

/-!
# Page layout

A page holds a slot map, then its slots one behind the other, then zeros. Each slot costs the
bytes of one row and one bit of the map, so a page of `p` bytes has `8p / (8r + 1)` slots for rows
of `r` bytes.
-/

namespace RowStore

structure Layout where
  pageSize : Nat
  rowSize : Nat
  slots : Nat
  deriving DecidableEq, Repr

namespace Layout

def slotsFor (rowSize pageSize : Nat) : Nat := pageSize * 8 / (rowSize * 8 + 1)

/-- Lay out pages of `pageSize` bytes, which must have room for at least one row. -/
def ofSchema (schema : Schema) (pageSize : Nat) : Except StorageError Layout :=
  let slots := slotsFor schema.rowSize pageSize
  if slots = 0 then .error (.invalidSchema (.rowTooLarge schema.rowSize pageSize))
  else .ok ⟨pageSize, schema.rowSize, slots⟩

def headerSize (l : Layout) : Nat := (l.slots + 7) / 8

def slotOffset (l : Layout) (slot : Nat) : Nat := l.headerSize + slot * l.rowSize

/-- The bytes of the map and of the slots together. -/
def extent (rowSize slots : Nat) : Nat := (slots + 7) / 8 + slots * rowSize

theorem extent_slotsFor_le (rowSize pageSize : Nat) :
    extent rowSize (slotsFor rowSize pageSize) ≤ pageSize := by
  have h : slotsFor rowSize pageSize * (rowSize * 8 + 1) ≤ pageSize * 8 := Nat.div_mul_le_self _ _
  rw [Nat.mul_add, ← Nat.mul_assoc] at h
  simp only [extent]
  omega

/-- One slot more would not fit. -/
theorem lt_extent_succ_slotsFor (rowSize pageSize : Nat) :
    pageSize < extent rowSize (slotsFor rowSize pageSize + 1) := by
  have h : pageSize * 8 < (slotsFor rowSize pageSize + 1) * (rowSize * 8 + 1) := by
    rw [slotsFor, Nat.mul_comm (_ + 1)]
    exact Nat.lt_mul_div_succ (pageSize * 8) (by omega)
  rw [Nat.mul_add, ← Nat.mul_assoc] at h
  simp only [extent]
  omega

end Layout

end RowStore
