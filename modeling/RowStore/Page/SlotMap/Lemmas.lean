import RowStore.Page.SlotMap

/-!
# Slot maps as sets of slots

Occupying and vacating a slot change the set of occupied slots at one number, the count kept in a
map is the size of that set, and the lowest empty slot is the least number missing from it.
-/

namespace RowStore.SlotMap

theorem toBitVec_mask (i : Nat) : (mask i).toBitVec = BitVec.twoPow 8 (i % 8) := by
  have key : ∀ k, k < 8 → ((1 : UInt8) <<< k.toUInt8).toBitVec = BitVec.twoPow 8 k := by decide
  exact key (i % 8) (by omega)

theorem bit_or_mask (b : UInt8) (i j : Nat) :
    bit (b ||| mask i) j = (bit b j || decide (i % 8 = j % 8)) := by
  have : j % 8 < 8 := by omega
  simp [bit, toBitVec_mask, this, eq_comm]

theorem bit_and_not_mask (b : UInt8) (i j : Nat) :
    bit (b &&& ~~~ mask i) j = (bit b j && !decide (i % 8 = j % 8)) := by
  have : j % 8 < 8 := by omega
  simp [bit, toBitVec_mask, this, eq_comm]

theorem bit_of_lt {b : UInt8} {i : Nat} (h : i < 8) : bit b i = b.toBitVec.getLsbD i := by
  simp [bit, Nat.mod_eq_of_lt h]

/-- A byte is given by its eight bits. -/
theorem eq_of_bit_eq {a b : UInt8} (h : ∀ i, i < 8 → bit a i = bit b i) : a = b := by
  apply UInt8.eq_of_toBitVec_eq
  apply BitVec.eq_of_getLsbD_eq
  intro i hi
  simpa [bit_of_lt hi] using h i hi

@[simp] theorem bit_zero (i : Nat) : bit 0 i = false := by simp [bit]

theorem bit_full (i : Nat) : bit 0xFF i = true := by
  have key : ∀ k, k < 8 → (0xFF : UInt8).toBitVec.getLsbD k = true := by decide
  exact key (i % 8) (by omega)

theorem getD_modify (bits : Bytes) (i j : Nat) (f : UInt8 → UInt8) :
    (bits.modify i f).getD j 0 =
      if i = j ∧ j < bits.length then f (bits.getD j 0) else bits.getD j 0 := by
  simp only [List.getD_eq_getElem?_getD, List.getElem?_modify]
  by_cases h : i = j <;> by_cases hj : j < bits.length <;> simp [h, hj]

theorem isSet_eq_false {m : SlotMap} {i : Nat} (h : m.slots ≤ i) : m.isSet i = false := by
  simp [isSet, Nat.not_lt.2 h]

theorem div_lt_byteCount {m : SlotMap} (hm : m.bits.length = byteCount m.slots) {i : Nat}
    (hi : i < m.slots) : i / 8 < m.bits.length := by
  rw [hm, byteCount]; omega

theorem bitAt_modify (bits : Bytes) (i j : Nat) (f : UInt8 → UInt8) :
    bitAt (bits.modify i f) j =
      if i = j / 8 ∧ j / 8 < bits.length then bit (f (bits.getD (j / 8) 0)) j
      else bitAt bits j := by
  rw [bitAt, getD_modify]
  split <;> rfl

@[simp] theorem slots_set (m : SlotMap) (i : Nat) : (m.set i).slots = m.slots := rfl

@[simp] theorem slots_clear (m : SlotMap) (i : Nat) : (m.clear i).slots = m.slots := rfl

theorem isSet_eq (m : SlotMap) (i : Nat) : m.isSet i = (decide (i < m.slots) && bitAt m.bits i) :=
  rfl

theorem isSet_set {m : SlotMap} (hm : m.bits.length = byteCount m.slots) {i : Nat}
    (hi : i < m.slots) (j : Nat) : (m.set i).isSet j = (decide (i = j) || m.isSet j) := by
  have hb := div_lt_byteCount hm hi
  rw [isSet_eq, isSet_eq, slots_set, show (m.set i).bits = m.bits.modify (i / 8) (· ||| mask i) from
    rfl, bitAt_modify]
  by_cases hj : j < m.slots
  · by_cases hij : i / 8 = j / 8
    · have : i % 8 = j % 8 ↔ i = j := by omega
      rw [if_pos ⟨hij, hij ▸ hb⟩, bit_or_mask]
      simp [bitAt, hj, this, Bool.or_comm]
    · have : i ≠ j := fun h => hij (h ▸ rfl)
      simp [hij, this]
  · have : i ≠ j := by omega
    simp [hj, this]

theorem isSet_clear {m : SlotMap} (hm : m.bits.length = byteCount m.slots) {i : Nat}
    (hi : i < m.slots) (j : Nat) : (m.clear i).isSet j = (!decide (i = j) && m.isSet j) := by
  have hb := div_lt_byteCount hm hi
  rw [isSet_eq, isSet_eq, slots_clear,
    show (m.clear i).bits = m.bits.modify (i / 8) (· &&& ~~~ mask i) from rfl, bitAt_modify]
  by_cases hj : j < m.slots
  · by_cases hij : i / 8 = j / 8
    · have : i % 8 = j % 8 ↔ i = j := by omega
      rw [if_pos ⟨hij, hij ▸ hb⟩, bit_and_not_mask]
      simp [bitAt, hj, this, Bool.and_comm]
    · have : i ≠ j := fun h => hij (h ▸ rfl)
      simp [hij, this]
  · have : i ≠ j := by omega
    simp [hj, this]

theorem bitAt_cons_of_lt {b : UInt8} {rest : Bytes} {i : Nat} (h : i < 8) :
    bitAt (b :: rest) i = bit b i := by
  have : i / 8 = 0 := by omega
  simp [bitAt, this]

theorem bitAt_cons_add {b : UInt8} {rest : Bytes} (i : Nat) :
    bitAt (b :: rest) (8 + i) = bitAt rest i := by
  have h : (8 + i) / 8 = i / 8 + 1 := by omega
  have hm : (8 + i) % 8 = i % 8 := by omega
  simp [bitAt, bit, h, hm]

theorem lowestZero?_eq_none {start : Nat} {bits : Bytes} (h : lowestZero? start bits = none) :
    ∀ i, i < 8 * bits.length → bitAt bits i = true := by
  induction bits generalizing start with
  | nil => intro i hi; simp at hi
  | cons b rest ih =>
    intro i hi
    simp only [lowestZero?] at h
    split at h
    · next hb =>
      by_cases hlt : i < 8
      · rw [bitAt_cons_of_lt hlt, hb, bit_full]
      · obtain ⟨k, rfl⟩ : ∃ k, i = 8 + k := ⟨i - 8, by omega⟩
        rw [bitAt_cons_add]
        exact ih h k (by simp at hi; omega)
    · next hb =>
      refine absurd (eq_of_bit_eq fun k hk => ?_) hb
      simp only [Option.map_eq_none_iff, List.find?_eq_none, List.mem_range] at h
      have := h k hk
      simpa [bit_full] using this

theorem lowestZero?_eq_some {start k : Nat} {bits : Bytes} (h : lowestZero? start bits = some k) :
    ∃ i, k = start + i ∧ i < 8 * bits.length ∧ bitAt bits i = false ∧
      ∀ j, j < i → bitAt bits j = true := by
  induction bits generalizing start with
  | nil => simp [lowestZero?] at h
  | cons b rest ih =>
    simp only [lowestZero?] at h
    split at h
    · next hb =>
      obtain ⟨i, rfl, hi, hz, hlow⟩ := ih h
      refine ⟨8 + i, by omega, by simp; omega, by rw [bitAt_cons_add]; exact hz, fun j hj => ?_⟩
      by_cases hlt : j < 8
      · rw [bitAt_cons_of_lt hlt, hb, bit_full]
      · obtain ⟨m, rfl⟩ : ∃ m, j = 8 + m := ⟨j - 8, by omega⟩
        rw [bitAt_cons_add]
        exact hlow m (by omega)
    · obtain ⟨i, hi, rfl⟩ := Option.map_eq_some_iff.1 h
      rw [List.find?_range_eq_some] at hi
      obtain ⟨hz, hmem, hlow⟩ := hi
      have hlt : i < 8 := by simpa using hmem
      refine ⟨i, rfl, by simp; omega, ?_, fun j hj => ?_⟩
      · rw [bitAt_cons_of_lt hlt]; simpa using hz
      · rw [bitAt_cons_of_lt (by omega)]; simpa using hlow j hj

theorem countP_range_insert (p : Nat → Bool) {i n : Nat} (hi : i < n) :
    (List.range n).countP (fun j => decide (i = j) || p j) =
      if p i then (List.range n).countP p else (List.range n).countP p + 1 := by
  induction n with
  | zero => omega
  | succ n ih =>
    simp only [List.range_succ, List.countP_append, List.countP_singleton]
    by_cases h : i = n
    · subst h
      have : (List.range i).countP (fun j => decide (i = j) || p j) = (List.range i).countP p :=
        List.countP_congr fun j hj => by
          have : i ≠ j := by have := List.mem_range.1 hj; omega
          simp [this]
      rw [this]
      cases p i <;> simp
    · rw [ih (by omega)]
      simp only [h, decide_false, Bool.false_or]
      split <;> omega

theorem countP_range_erase (p : Nat → Bool) {i n : Nat} (hi : i < n) :
    (List.range n).countP (fun j => !decide (i = j) && p j) =
      if p i then (List.range n).countP p - 1 else (List.range n).countP p := by
  have h := countP_range_insert (fun j => !decide (i = j) && p j) hi
  have hp : (List.range n).countP (fun j => decide (i = j) || (!decide (i = j) && p j)) =
      (List.range n).countP (fun j => decide (i = j) || p j) :=
    List.countP_congr fun j _ => by by_cases h : i = j <;> simp [h]
  have h' := countP_range_insert p hi
  simp only [decide_true, Bool.not_true, Bool.false_and, Bool.false_eq_true, if_false] at h
  grind

theorem onesOf_eq (bits : Bytes) :
    onesOf bits = (List.range (8 * bits.length)).countP (bitAt bits) := by
  induction bits with
  | nil => rfl
  | cons b rest ih =>
    have hlen : 8 * (b :: rest).length = 8 + 8 * rest.length := by simp; omega
    have hfirst : (List.range 8).countP (bitAt (b :: rest)) = onesIn b :=
      List.countP_congr fun i hi => by
        rw [bitAt_cons_of_lt (List.mem_range.1 hi)]
    have hrest : bitAt (b :: rest) ∘ (8 + ·) = bitAt rest := funext fun i => bitAt_cons_add i
    rw [hlen, List.range_add, List.countP_append, List.countP_map, hfirst, hrest, ← ih]
    rfl

theorem flatMap_bit_eq (bits : Bytes) :
    (bits.flatMap fun b => (List.range 8).map (bit b)) =
      (List.range (8 * bits.length)).map (bitAt bits) := by
  induction bits with
  | nil => rfl
  | cons b rest ih =>
    have hlen : 8 * (b :: rest).length = 8 + 8 * rest.length := by simp; omega
    have hfirst : (List.range 8).map (bitAt (b :: rest)) = (List.range 8).map (bit b) :=
      List.map_congr_left fun i hi => bitAt_cons_of_lt (List.mem_range.1 hi)
    have hrest : bitAt (b :: rest) ∘ (8 + ·) = bitAt rest := funext fun i => bitAt_cons_add i
    rw [hlen, List.range_add, List.map_append, List.map_map, hfirst, hrest, ← ih]
    rfl

/-- The flags of a map say of each slot whether it is occupied. -/
theorem flags_eq {m : SlotMap} (h : m.bits.length = byteCount m.slots) :
    m.flags = (List.range m.slots).map m.isSet := by
  have hle : m.slots ≤ 8 * m.bits.length := by rw [h, byteCount]; omega
  rw [flags, flatMap_bit_eq, ← List.map_take, List.take_range, Nat.min_eq_left hle]
  exact List.map_congr_left fun i hi => by simp [isSet, List.mem_range.1 hi]

theorem countP_range_of_le (p : Nat → Bool) {n m : Nat} (h : n ≤ m)
    (hp : ∀ i, n ≤ i → p i = false) : (List.range m).countP p = (List.range n).countP p := by
  obtain ⟨k, rfl⟩ := Nat.exists_eq_add_of_le h
  rw [List.range_add, List.countP_append, List.countP_map]
  have : (List.range k).countP (p ∘ (n + ·)) = 0 := by
    rw [List.countP_eq_zero]
    intro i _
    simp [hp (n + i) (by omega)]
  omega

theorem isSet_eq_bitAt {m : SlotMap} (h : m.WellFormed) (i : Nat) : m.isSet i = bitAt m.bits i := by
  by_cases hi : i < m.slots
  · simp [isSet, bitAt, hi]
  · rw [isSet_eq_false (by omega), h.tail_clear i (by omega)]

/-- The count kept in a map is the number of its occupied slots. -/
theorem used_eq {m : SlotMap} (h : m.WellFormed) :
    m.used = (List.range m.slots).countP m.isSet := by
  have hle : m.slots ≤ 8 * m.bits.length := by rw [h.length_eq, byteCount]; omega
  rw [h.used_eq_ones, ones, onesOf_eq, countP_range_of_le _ hle h.tail_clear]
  exact List.countP_congr fun i _ => by rw [isSet_eq_bitAt h]

theorem wellFormed_of_isSet {m : SlotMap} (hl : m.bits.length = byteCount m.slots)
    (ht : ∀ i, m.slots ≤ i → bitAt m.bits i = false)
    (hu : m.used = (List.range m.slots).countP m.isSet) : m.WellFormed := by
  refine ⟨hl, ht, ?_⟩
  have hle : m.slots ≤ 8 * m.bits.length := by rw [hl, byteCount]; omega
  rw [ones, onesOf_eq, countP_range_of_le _ hle ht, hu]
  refine List.countP_congr fun i hi => ?_
  simp [isSet, bitAt, List.mem_range.1 hi]

theorem WellFormed.set {m : SlotMap} (h : m.WellFormed) {i : Nat} (hi : i < m.slots) :
    (m.set i).WellFormed := by
  refine wellFormed_of_isSet (by simpa [SlotMap.set] using h.length_eq) (fun j hj => ?_) ?_
  · have hj : m.slots ≤ j := hj
    simp only [SlotMap.set, bitAt_modify]
    split
    · have : i % 8 ≠ j % 8 := by omega
      have ht : bit (m.bits.getD (j / 8) 0) j = false := h.tail_clear j hj
      rw [bit_or_mask, ht]
      simp [this]
    · exact h.tail_clear j hj
  · have : (List.range m.slots).countP (m.set i).isSet =
        (List.range m.slots).countP (fun j => decide (i = j) || m.isSet j) :=
      List.countP_congr fun j _ => by rw [isSet_set h.length_eq hi]
    show _ = (List.range m.slots).countP _
    rw [this, countP_range_insert _ hi, ← used_eq h]
    rfl

theorem WellFormed.clear {m : SlotMap} (h : m.WellFormed) {i : Nat} (hi : i < m.slots) :
    (m.clear i).WellFormed := by
  refine wellFormed_of_isSet (by simpa [SlotMap.clear] using h.length_eq) (fun j hj => ?_) ?_
  · have hj : m.slots ≤ j := hj
    simp only [SlotMap.clear, bitAt_modify]
    split
    · have ht : bit (m.bits.getD (j / 8) 0) j = false := h.tail_clear j hj
      rw [bit_and_not_mask, ht, Bool.false_and]
    · exact h.tail_clear j hj
  · have : (List.range m.slots).countP (m.clear i).isSet =
        (List.range m.slots).countP (fun j => !decide (i = j) && m.isSet j) :=
      List.countP_congr fun j _ => by rw [isSet_clear h.length_eq hi]
    show _ = (List.range m.slots).countP _
    rw [this, countP_range_erase _ hi, ← used_eq h]
    rfl

theorem used_eq_slots {m : SlotMap} (h : m.WellFormed) :
    m.used = m.slots ↔ ∀ i, i < m.slots → m.isSet i = true := by
  have : (List.range m.slots).length = m.slots := List.length_range
  rw [used_eq h]
  conv => lhs; rhs; rw [← this]
  rw [List.countP_eq_length]
  simp

theorem lowestEmpty?_eq_none {m : SlotMap} (h : m.WellFormed) :
    m.lowestEmpty? = none ↔ ∀ i, i < m.slots → m.isSet i = true := by
  unfold lowestEmpty?
  split
  · next hu => simpa using (used_eq_slots h).1 hu
  · next hu =>
    rw [used_eq_slots h] at hu
    refine ⟨fun hn => absurd (fun i hi => ?_) hu, fun hall => absurd hall hu⟩
    cases hz : lowestZero? 0 m.bits with
    | none =>
      rw [isSet_eq_bitAt h]
      exact lowestZero?_eq_none hz i (by rw [h.length_eq, byteCount]; omega)
    | some k =>
      obtain ⟨k, rfl, -, hk, hlow⟩ := lowestZero?_eq_some hz
      have hge : m.slots ≤ 0 + k := by simpa [hz] using hn
      rw [isSet_eq_bitAt h]
      exact hlow i (by omega)

/-- The lowest empty slot is empty, and every slot below it is occupied. -/
theorem lowestEmpty?_eq_some {m : SlotMap} (h : m.WellFormed) {i : Nat} :
    m.lowestEmpty? = some i ↔
      i < m.slots ∧ m.isSet i = false ∧ ∀ j, j < i → m.isSet j = true := by
  have sound : ∀ {k}, m.lowestEmpty? = some k →
      k < m.slots ∧ m.isSet k = false ∧ ∀ j, j < k → m.isSet j = true := by
    intro k hk
    unfold lowestEmpty? at hk
    split at hk
    · simp at hk
    · obtain ⟨hz, hlt⟩ := Option.filter_eq_some_iff.1 hk
      obtain ⟨n, rfl, -, hn, hlow⟩ := lowestZero?_eq_some hz
      have hn : bitAt m.bits (0 + n) = false := by simpa using hn
      refine ⟨by simpa using hlt, by rw [isSet_eq_bitAt h]; exact hn, fun j hj => ?_⟩
      rw [isSet_eq_bitAt h]
      exact hlow j (by omega)
  refine ⟨sound, fun ⟨hi, hz, hlow⟩ => ?_⟩
  cases hk : m.lowestEmpty? with
  | none => simp [(lowestEmpty?_eq_none h).1 hk i hi] at hz
  | some k =>
    obtain ⟨-, hz', hlow'⟩ := sound hk
    have h1 : ¬ i < k := fun hlt => by simp [hlow' i hlt] at hz
    have h2 : ¬ k < i := fun hlt => by simp [hlow k hlt] at hz'
    rw [show k = i by omega]

theorem length_trim (slots : Nat) (bits : Bytes) : (trim slots bits).length = bits.length := by
  unfold trim
  split <;> simp

theorem bit_tail (b : UInt8) {slots i : Nat} (hs : slots % 8 ≠ 0) :
    bit (b &&& (mask slots - 1)) i = (bit b i && decide (i % 8 < slots % 8)) := by
  have key : ∀ k, k < 8 → ∀ j, j < 8 → k ≠ 0 →
      (((1 : UInt8) <<< k.toUInt8) - 1).toBitVec.getLsbD j = decide (j < k) := by decide
  have := key (slots % 8) (by omega) (i % 8) (by omega) hs
  simp only [bit, mask, UInt8.toBitVec_and, BitVec.getLsbD_and, this]

theorem bitAt_trim {slots : Nat} {bits : Bytes} (hl : bits.length = byteCount slots) (i : Nat) :
    bitAt (trim slots bits) i = (bitAt bits i && decide (i < slots)) := by
  rw [byteCount] at hl
  have past : 8 * bits.length ≤ i → bitAt bits i = false := fun hi => by
    have : bits[i / 8]? = none := List.getElem?_eq_none (by omega)
    simp [bitAt, this]
  unfold trim
  split
  · by_cases hi : i < slots
    · simp [hi]
    · simp [past (by omega)]
  · next hs =>
    rw [bitAt_modify]
    split
    · next hi =>
      rw [bit_tail _ hs]
      have : i % 8 < slots % 8 ↔ i < slots := by omega
      simp [bitAt, this]
    · next hi =>
      by_cases hlt : i < slots
      · simp [hlt]
      · simp [past (by omega)]

/-- Reading a map takes the bits of its slots from the image, whatever follows them. -/
theorem read?_eq_some {image : Bytes} {slots : Nat} {m : SlotMap}
    (h : read? image slots = some m) :
    m.WellFormed ∧ m.slots = slots ∧ byteCount slots ≤ image.length ∧
      ∀ i, m.isSet i = (bitAt image i && decide (i < slots)) := by
  obtain ⟨bits, hb, rfl⟩ := Option.map_eq_some_iff.1 h
  simp only [Bytes.window?, List.drop_zero] at hb
  split at hb
  · next hlen =>
    obtain rfl : image.take (byteCount slots) = bits := by simpa using hb
    have hle : byteCount slots ≤ image.length := by simp at hlen; omega
    have hbits : ∀ i, i < slots → bitAt (image.take (byteCount slots)) i = bitAt image i := by
      intro i hi
      have : i / 8 < byteCount slots := by rw [byteCount]; omega
      simp [bitAt, this]
    refine ⟨⟨?_, ?_, rfl⟩, rfl, hle, fun i => ?_⟩
    · simp [length_trim, hlen]
    · intro i hi
      have hi : slots ≤ i := hi
      simp [bitAt_trim hlen, Nat.not_lt.2 hi]
    · rw [isSet_eq, bitAt_trim hlen]
      by_cases hi : i < slots
      · simp [hi, hbits i hi]
      · simp [hi]
  · simp at hb

theorem read?_eq_none {image : Bytes} {slots : Nat} :
    read? image slots = none ↔ image.length < byteCount slots := by
  simp only [read?, Option.map_eq_none_iff, Bytes.window?, List.drop_zero, List.length_take]
  split <;> simp <;> omega

theorem getD_eq_of_bitAt_eq {as bs : Bytes} {k : Nat}
    (h : ∀ i, i / 8 = k → bitAt as i = bitAt bs i) : as.getD k 0 = bs.getD k 0 := by
  refine eq_of_bit_eq fun i hi => ?_
  have hd : (8 * k + i) / 8 = k := by omega
  have hm : (8 * k + i) % 8 = i % 8 := by omega
  simpa only [bitAt, bit, hd, hm] using h (8 * k + i) hd

theorem eq_of_bitAt_eq {as bs : Bytes} (hl : as.length = bs.length)
    (h : ∀ i, bitAt as i = bitAt bs i) : as = bs := by
  refine List.ext_getElem hl fun k ha hb => ?_
  simpa [ha, hb] using getD_eq_of_bitAt_eq fun i (_ : i / 8 = k) => h i

/-- A map is told by its occupied slots. -/
theorem WellFormed.eq_of_isSet {m n : SlotMap} (hm : m.WellFormed) (hn : n.WellFormed)
    (hslots : m.slots = n.slots) (h : ∀ i, m.isSet i = n.isSet i) : m = n := by
  have hbits : m.bits = n.bits := by
    refine eq_of_bitAt_eq (by rw [hm.length_eq, hn.length_eq, hslots]) fun i => ?_
    rw [← isSet_eq_bitAt hm, ← isSet_eq_bitAt hn, h]
  have hused : m.used = n.used := by
    rw [used_eq hm, used_eq hn, hslots]
    exact List.countP_congr fun i _ => by rw [h]
  cases m
  cases n
  simp only at hbits hslots hused
  rw [hbits, hslots, hused]

/-- Vacating a slot undoes occupying it. -/
theorem WellFormed.clear_set {m : SlotMap} (h : m.WellFormed) {i : Nat} (hi : i < m.slots)
    (hempty : m.isSet i = false) : (m.set i).clear i = m := by
  have hset := h.set hi
  refine WellFormed.eq_of_isSet (hset.clear hi) h rfl fun j => ?_
  rw [isSet_clear hset.length_eq hi, isSet_set h.length_eq hi]
  by_cases hj : i = j
  · simp [← hj, hempty]
  · simp [hj]

/-- Reading back what a map writes gives the map. -/
theorem read?_bits_append {m : SlotMap} (h : m.WellFormed) (rest : Bytes) :
    read? (m.bits ++ rest) m.slots = some m := by
  have hw : Bytes.window? (m.bits ++ rest) 0 (byteCount m.slots) = some m.bits := by
    simp [Bytes.window?, ← h.length_eq]
  have ht : trim m.slots m.bits = m.bits := by
    refine eq_of_bitAt_eq (length_trim _ _) fun i => ?_
    rw [bitAt_trim h.length_eq]
    by_cases hi : i < m.slots
    · simp [hi]
    · simp [hi, h.tail_clear i (by omega)]
  have hu : onesOf m.bits = m.used := h.used_eq_ones.symm
  simp [read?, hw, ht, hu]

end RowStore.SlotMap
