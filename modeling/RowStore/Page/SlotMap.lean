import RowStore.Bytes
import RowStore.Total

/-!
# Slot maps

The occupied slots of a page as a string of bits, eight slots a byte, the lowest slot in the least
significant bit. The number of occupied slots is kept beside the bits. `WellFormed` says that the
two agree and that no bit past the last slot is set.
-/

namespace RowStore

structure SlotMap where
  bits : Bytes
  slots : Nat
  used : Nat
  deriving DecidableEq, Repr

namespace SlotMap

def byteCount (slots : Nat) : Nat := (slots + 7) / 8

def mask (i : Nat) : UInt8 := 1 <<< (i % 8).toUInt8

def bit (b : UInt8) (i : Nat) : Bool := b.toBitVec.getLsbD (i % 8)

/-- The bit of slot `i` in a string of bits; past its end all bits are zero. -/
def bitAt (bits : Bytes) (i : Nat) : Bool := bit (bits.getD (i / 8) 0) i

def onesIn (b : UInt8) : Nat := (List.range 8).countP (bit b)

def onesOf (bits : Bytes) : Nat := total onesIn bits

/-- Clear the bits of the last byte that stand for no slot. -/
def trim (slots : Nat) (bits : Bytes) : Bytes :=
  if slots % 8 = 0 then bits
  else bits.modify (bits.length - 1) (· &&& (mask slots - 1))

/-- Read the map from the front of a page image, unless the image is too short. -/
def read? (image : Bytes) (slots : Nat) : Option SlotMap :=
  (Bytes.window? image 0 (byteCount slots)).map fun bits =>
    let trimmed := trim slots bits
    ⟨trimmed, slots, onesOf trimmed⟩

def isSet (m : SlotMap) (i : Nat) : Bool := i < m.slots && bitAt m.bits i

/-- One flag for each slot, in order. -/
def flags (m : SlotMap) : List Bool :=
  (m.bits.flatMap fun b => (List.range 8).map (bit b)).take m.slots

/-- Occupy slot `i`. -/
def set (m : SlotMap) (i : Nat) : SlotMap :=
  { m with
    bits := m.bits.modify (i / 8) (· ||| mask i)
    used := if m.isSet i then m.used else m.used + 1 }

/-- Vacate slot `i`. -/
def clear (m : SlotMap) (i : Nat) : SlotMap :=
  { m with
    bits := m.bits.modify (i / 8) (· &&& ~~~ mask i)
    used := if m.isSet i then m.used - 1 else m.used }

def ones (m : SlotMap) : Nat := onesOf m.bits

/-- The lowest zero bit, where the first byte holds the bits from `start` on. Full bytes are
skipped whole. -/
def lowestZero? (start : Nat) : Bytes → Option Nat
  | [] => none
  | b :: rest =>
    if b = 0xFF then lowestZero? (start + 8) rest
    else ((List.range 8).find? (fun i => !bit b i)).map (start + ·)

def lowestEmpty? (m : SlotMap) : Option Nat :=
  if m.used = m.slots then none
  else (lowestZero? 0 m.bits).filter (· < m.slots)

/-- The bits fill whole bytes, none past the last slot is set, and the count is right. -/
structure WellFormed (m : SlotMap) : Prop where
  length_eq : m.bits.length = byteCount m.slots
  tail_clear : ∀ i, m.slots ≤ i → bitAt m.bits i = false
  used_eq_ones : m.used = m.ones

end SlotMap

end RowStore
