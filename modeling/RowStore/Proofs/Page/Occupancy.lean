import Mathlib.Data.Finset.Card
import Mathlib.Data.Finset.Range
import RowStore.Page.SlotMap.Lemmas

/-!
# The set that a slot map stands for

A slot map stands for a finite set of slots. Reading an image gives the set of those slots whose bit
is set there, occupying and vacating put one slot in and take one out, and every answer of the map
is told by the set: the bits themselves, the count kept beside them, the count taken over again, and
the lowest empty slot, for which full bytes are skipped whole.
-/

namespace RowStore

namespace SlotMap

/-- What becomes of one slot. -/
structure Mark where
  slot : Nat
  occupied : Bool
  deriving DecidableEq

/-- Occupy a slot or vacate it. -/
def mark (m : SlotMap) (k : Mark) : SlotMap := if k.occupied then m.set k.slot else m.clear k.slot

/-- The same change to a set of slots. -/
def Mark.change (s : Finset Nat) (k : Mark) : Finset Nat :=
  if k.occupied then insert k.slot s else s.erase k.slot

/-- The slots, of so many, whose bit is set in the image. -/
def occupiedIn (image : Bytes) (slots : Nat) : Finset Nat :=
  (Finset.range slots).filter fun i => (image.getD (i / 8) 0).toNat.testBit (i % 8)

variable {m : SlotMap} {image : Bytes} {slots i : Nat} {s : Finset Nat} {k : Mark}

theorem bitAt_eq_testBit (bits : Bytes) (i : Nat) :
    bitAt bits i = (bits.getD (i / 8) 0).toNat.testBit (i % 8) := rfl

/-! ## What one mark keeps -/

/-- The map has these slots, and is told by the set of those that are occupied. -/
structure StandsFor (m : SlotMap) (slots : Nat) (s : Finset Nat) : Prop where
  wellFormed : m.WellFormed
  slots_eq : m.slots = slots
  isSet_eq : ∀ i, m.isSet i = decide (i ∈ s)

theorem standsFor_of_read? (h : read? image slots = some m) :
    m.StandsFor slots (occupiedIn image slots) := by
  obtain ⟨hwf, hslots, -, hset⟩ := read?_eq_some h
  refine ⟨hwf, hslots, fun i => ?_⟩
  rw [hset, bitAt_eq_testBit, Bool.and_comm]
  simp [occupiedIn]

theorem StandsFor.mark (h : m.StandsFor slots s) (hk : k.slot < slots) :
    (m.mark k).StandsFor slots (k.change s) := by
  have hlt : k.slot < m.slots := h.slots_eq ▸ hk
  unfold SlotMap.mark Mark.change
  split
  · refine ⟨h.wellFormed.set hlt, h.slots_eq, fun i => ?_⟩
    rw [isSet_set h.wellFormed.length_eq hlt, h.isSet_eq]
    simp [eq_comm]
  · refine ⟨h.wellFormed.clear hlt, h.slots_eq, fun i => ?_⟩
    rw [isSet_clear h.wellFormed.length_eq hlt, h.isSet_eq]
    simp [eq_comm]

/-- What any number of marks keeps. -/
theorem StandsFor.foldl (h : m.StandsFor slots s) (marks : List Mark)
    (hmarks : ∀ k ∈ marks, k.slot < slots) :
    (marks.foldl SlotMap.mark m).StandsFor slots (marks.foldl Mark.change s) := by
  induction marks generalizing m s with
  | nil => exact h
  | cons k marks ih =>
    obtain ⟨hk, hrest⟩ := List.forall_mem_cons.1 hmarks
    exact ih (h.mark hk) hrest

/-! ## What the set tells -/

/-- The map answers as its set does. -/
structure Denotes (m : SlotMap) (slots : Nat) (s : Finset Nat) : Prop where
  isSet_iff : ∀ i, m.isSet i = true ↔ i ∈ s
  subset : s ⊆ Finset.range slots
  used_eq : m.used = s.card
  ones_eq : m.ones = s.card
  lowestEmpty?_eq_some_iff : ∀ i, m.lowestEmpty? = some i ↔
    i < slots ∧ i ∉ s ∧ ∀ j, j < i → j ∈ s
  lowestEmpty?_eq_none_iff : m.lowestEmpty? = none ↔ s = Finset.range slots
  length_bits : m.bits.length = (slots + 7) / 8
  bit_iff : ∀ i, (m.bits.getD (i / 8) 0).toNat.testBit (i % 8) = true ↔ i ∈ s
  tail_clear : ∀ i, slots ≤ i → (m.bits.getD (i / 8) 0).toNat.testBit (i % 8) = false
  reread : ∀ rest, read? (m.bits ++ rest) slots = some m

theorem card_filter_range (p : Nat → Bool) (n : Nat) :
    ((Finset.range n).filter fun i => p i = true).card = (List.range n).countP p := by
  rw [List.countP_eq_length_filter, ← List.toFinset_card_of_nodup (List.nodup_range.filter _)]
  congr 1
  ext i
  simp

theorem StandsFor.denotes (h : m.StandsFor slots s) : m.Denotes slots s := by
  obtain ⟨hwf, rfl, hset⟩ := h
  have hmem : ∀ i, m.isSet i = true ↔ i ∈ s := fun i => by rw [hset, decide_eq_true_iff]
  have hsubset : s ⊆ Finset.range m.slots := by
    intro i hi
    rw [Finset.mem_range]
    by_contra hge
    rw [← hmem, isSet_eq_false (Nat.le_of_not_lt hge)] at hi
    cases hi
  have hfull : (∀ i, i < m.slots → m.isSet i = true) ↔ s = Finset.range m.slots := by
    simp only [hmem, ← Finset.mem_range]
    exact ⟨fun hall => hsubset.antisymm hall, fun heq => heq ▸ fun _ => id⟩
  have hused : m.used = s.card := by
    have heq : s = (Finset.range m.slots).filter fun i => m.isSet i = true := by
      ext i
      rw [Finset.mem_filter, hmem]
      exact ⟨fun hi => ⟨hsubset hi, hi⟩, And.right⟩
    rw [used_eq hwf, ← card_filter_range, ← heq]
  refine
    { isSet_iff := hmem
      subset := hsubset
      used_eq := hused
      ones_eq := hwf.used_eq_ones ▸ hused
      lowestEmpty?_eq_some_iff := ?_
      lowestEmpty?_eq_none_iff := (lowestEmpty?_eq_none hwf).trans hfull
      length_bits := hwf.length_eq
      bit_iff := ?_
      tail_clear := hwf.tail_clear
      reread := read?_bits_append hwf }
  · intro i
    rw [lowestEmpty?_eq_some hwf, ← Bool.not_eq_true, hmem]
    simp only [hmem]
  · intro i
    rw [← bitAt_eq_testBit, ← isSet_eq_bitAt hwf, hmem]

/-- A map is read from any image that has a byte for each eight slots. From then on it stands for
the set of its occupied slots, whatever slots are occupied and vacated, in whatever order and
however often. -/
theorem denotes_after_marks (image : Bytes) (slots : Nat) (marks : List Mark)
    (hmarks : ∀ k ∈ marks, k.slot < slots) :
    ((∃ m, read? image slots = some m) ↔ (slots + 7) / 8 ≤ image.length) ∧
      ∀ m, read? image slots = some m → (marks.foldl mark m).Denotes slots
        (marks.foldl Mark.change (occupiedIn image slots)) := by
  refine ⟨?_, fun m hm => ((standsFor_of_read? hm).foldl marks hmarks).denotes⟩
  rw [← Option.ne_none_iff_exists', ne_eq, read?_eq_none, Nat.not_lt]
  rfl

/-- Of two bytes that are read, the first one is full and the second one has its first bit clear and
bits set past the last slot. One slot is occupied twice and one is vacated twice. -/
theorem denotes_after_marks_repeated :
    ∃ m n, read? [0xFF, 0xFE, 0x5A] 10 = some m ∧ m.used = 9 ∧ m.lowestEmpty? = some 8 ∧
      n = [Mark.mk 8 true, ⟨3, false⟩, ⟨8, true⟩, ⟨3, false⟩].foldl mark m ∧
      n.bits = [0xF7, 0x03] ∧ n.lowestEmpty? = some 3 ∧
      n.Denotes 10 ((Finset.range 10).erase 3) := by
  have hmarks : ∀ k ∈ [Mark.mk 8 true, ⟨3, false⟩, ⟨8, true⟩, ⟨3, false⟩], k.slot < 10 := by decide
  have hset : [Mark.mk 8 true, ⟨3, false⟩, ⟨8, true⟩, ⟨3, false⟩].foldl Mark.change
      (occupiedIn [0xFF, 0xFE, 0x5A] 10) = (Finset.range 10).erase 3 := by decide
  obtain ⟨-, hdenotes⟩ := denotes_after_marks [0xFF, 0xFE, 0x5A] 10 _ hmarks
  exact ⟨_, _, rfl, by decide, by decide, rfl, by decide, by decide, hset ▸ hdenotes _ rfl⟩

end SlotMap

end RowStore
