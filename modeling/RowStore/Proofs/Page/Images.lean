import Mathlib.Tactic.Choose
import RowStore.Proofs.Page.Cells
import RowStore.Proofs.Page.Spelling

/-!
# What a page reads of an image

An image is read if it has room for every slot and each slot that its map tells occupied spells a
row. The bits of the map past the last slot, the bytes of empty slots, the padding of texts and
whatever follows the last slot are ignored. Writing the page again puts zeros there, and copies
everything else.
-/

namespace RowStore

namespace Layout

variable {l : Layout} {image : Bytes} {a b j k slot : Nat}

/-- The bytes of a slot. -/
def slotBytes (l : Layout) (image : Bytes) (slot : Nat) : Bytes :=
  (image.drop (l.slotOffset slot)).take l.rowSize

theorem getD_slotBytes (hj : j < l.rowSize) :
    (l.slotBytes image slot).getD j 0 = image.getD (l.slotOffset slot + j) 0 := by
  simp [slotBytes, List.getElem?_take_of_lt hj, List.getElem?_drop]

theorem length_slotBytes (hslot : slot < l.slots)
    (hlen : l.slotOffset l.slots ≤ image.length) :
    (l.slotBytes image slot).length = l.rowSize := by
  have hle : (slot + 1) * l.rowSize ≤ l.slots * l.rowSize := Nat.mul_le_mul_right _ hslot
  rw [Nat.succ_mul] at hle
  simp only [slotOffset] at hlen
  simp only [slotBytes, slotOffset, List.length_take, List.length_drop]
  omega

/-- A byte lies in one slot, at one place. -/
theorem slotOffset_add_inj (hj : j < l.rowSize) (hk : k < l.rowSize)
    (h : l.slotOffset a + j = l.slotOffset b + k) : a = b ∧ j = k := by
  have hsum : a * l.rowSize + j = b * l.rowSize + k := by
    simp only [slotOffset] at h
    omega
  have hmod := congrArg (· % l.rowSize) hsum
  simp only [Nat.mul_add_mod', Nat.mod_eq_of_lt hj, Nat.mod_eq_of_lt hk] at hmod
  subst hmod
  exact ⟨Nat.eq_of_mul_eq_mul_right (Nat.zero_lt_of_lt hj) (Nat.add_right_cancel hsum), rfl⟩

/-- A byte between the map and the end of the last slot lies in some slot. -/
theorem exists_slotOffset_add (hfrom : l.headerSize ≤ k) (hto : k < l.slotOffset l.slots) :
    ∃ slot j, slot < l.slots ∧ j < l.rowSize ∧ k = l.slotOffset slot + j := by
  simp only [slotOffset] at hto
  have hlt : k - l.headerSize < l.slots * l.rowSize := by omega
  have hpos : 0 < l.rowSize := Nat.pos_of_mul_pos_left (Nat.zero_lt_of_lt hlt)
  refine ⟨(k - l.headerSize) / l.rowSize, (k - l.headerSize) % l.rowSize,
    Nat.div_lt_of_lt_mul (Nat.mul_comm _ _ ▸ hlt), Nat.mod_lt _ hpos, ?_⟩
  have hdiv := Nat.div_add_mod' (k - l.headerSize) l.rowSize
  rw [slotOffset]
  omega

theorem headerSize_le_slotOffset (l : Layout) (slot : Nat) : l.headerSize ≤ l.slotOffset slot :=
  Nat.le_add_right _ _

theorem slotOffset_add_lt (hslot : slot < l.slots) (hj : j < l.rowSize) :
    l.slotOffset slot + j < l.slotOffset l.slots := by
  have hle : (slot + 1) * l.rowSize ≤ l.slots * l.rowSize := Nat.mul_le_mul_right _ hslot
  rw [Nat.succ_mul] at hle
  simp only [slotOffset]
  omega

end Layout

namespace Page

/-! ## Reading the slots -/

/-- What the bytes of a slot tell of it, once the map has told whether it is occupied. -/
inductive Contains (page : PageId) (schema : Schema) (slot : Nat) (bytes : Bytes) :
    Bool → Option Row → Prop
  | vacant : Contains page schema slot bytes false none
  | occupied {values : List Value} : Row.Spelled schema.types bytes values →
      Contains page schema slot bytes true (some ⟨schema, values, some ⟨page, slot⟩⟩)

variable {page : PageId} {schema : Schema} {layout : Layout} {slot length : Nat}
  {bytes body : Bytes} {flags : List Bool} {slots : List (Option Row)} {r : Row}

theorem decodeRow_eq_ok_iff (hlen : bytes.length = schema.rowSize) :
    decodeRow page schema slot bytes = .ok r ↔
      ∃ values, Row.Spelled schema.types bytes values ∧
        r = ⟨schema, values, some ⟨page, slot⟩⟩ := by
  have hall : bytes.take (total ColumnType.width schema.types) = bytes :=
    List.take_of_length_le (Nat.le_of_eq hlen)
  simp only [decodeRow, Row.decode, Except.bind_eq_ok, Row.decodeValues_eq_ok_iff, hall, pure,
    Except.pure, Except.ok.injEq]
  constructor
  · rintro ⟨_, ⟨values, hspelled, rfl⟩, rfl⟩
    exact ⟨values, hspelled, rfl⟩
  · rintro ⟨values, hspelled, rfl⟩
    exact ⟨_, ⟨values, hspelled, rfl⟩, rfl⟩

theorem decodeSlot_eq_ok_iff {occupied : Bool} {content : Option Row}
    (hlen : bytes.length = schema.rowSize) :
    (if occupied then some <$> decodeRow page schema slot bytes else pure none) = .ok content ↔
      Contains page schema slot bytes occupied content := by
  cases occupied with
  | false =>
    constructor
    · intro h
      obtain rfl := Except.ok.inj h
      exact .vacant
    · rintro ⟨⟩
      rfl
  | true =>
    rw [if_pos rfl, Except.map_eq_ok]
    constructor
    · rintro ⟨r, hr, rfl⟩
      obtain ⟨values, hspelled, rfl⟩ := (decodeRow_eq_ok_iff hlen).1 hr
      exact .occupied hspelled
    · rintro ⟨⟩
      next values hspelled => exact ⟨_, (decodeRow_eq_ok_iff hlen).2 ⟨values, hspelled, rfl⟩, rfl⟩

theorem decodeSlots_cons_eq_ok_iff {occupied : Bool} (hrow : layout.rowSize = schema.rowSize)
    (hlen : layout.rowSize ≤ body.length) :
    decodeSlots page schema layout length slot (occupied :: flags) body = .ok slots ↔
      ∃ content others, Contains page schema slot (body.take layout.rowSize) occupied content ∧
        decodeSlots page schema layout length (slot + 1) flags (body.drop layout.rowSize) =
          .ok others ∧ slots = content :: others := by
  have htake : (body.take layout.rowSize).length = layout.rowSize := by simp [hlen]
  have hsteps : decodeSlots page schema layout length slot (occupied :: flags) body =
      (if occupied then some <$> decodeRow page schema slot (body.take layout.rowSize)
        else pure none) >>= fun content =>
      decodeSlots page schema layout length (slot + 1) flags (body.drop layout.rowSize) >>=
        fun others => pure (content :: others) := by
    cases occupied <;> simp [decodeSlots, Bytes.window?, hlen]
  simp only [hsteps, Except.bind_eq_ok, decodeSlot_eq_ok_iff (htake.trans hrow)]
  simp only [pure, Except.pure, Except.ok.injEq, eq_comm (a := slots), exists_and_left]

/-- The slots are read if the bytes of each are there and every slot holds what it should. -/
theorem decodeSlots_eq_ok_iff (hrow : layout.rowSize = schema.rowSize) :
    decodeSlots page schema layout length slot flags body = .ok slots ↔
      flags.length * layout.rowSize ≤ body.length ∧ slots.length = flags.length ∧
        ∀ k occupied content, flags[k]? = some occupied → slots[k]? = some content →
          Contains page schema (slot + k) ((body.drop (k * layout.rowSize)).take layout.rowSize)
            occupied content := by
  induction flags generalizing slot body slots with
  | nil =>
    rw [decodeSlots]
    constructor
    · intro h
      obtain rfl := Except.ok.inj h
      simp
    · rintro ⟨-, hlen, -⟩
      rw [List.eq_nil_of_length_eq_zero hlen]
  | cons occupied flags ih =>
    -- of what is left of the image, the first slot is in front and the others are behind it
    have hbehind (k : Nat) : (body.drop layout.rowSize).drop (k * layout.rowSize) =
        body.drop ((k + 1) * layout.rowSize) := by
      rw [List.drop_drop, Nat.succ_mul, Nat.add_comm]
    rw [List.length_cons, Nat.succ_mul]
    by_cases hlen : layout.rowSize ≤ body.length
    · simp only [decodeSlots_cons_eq_ok_iff hrow hlen, ih, List.length_drop, hbehind]
      constructor
      · rintro ⟨content, slots, hcontent, ⟨hle, hcount, hslots⟩, rfl⟩
        refine ⟨by omega, by simp [hcount], ?_⟩
        rintro (_ | k) flag held hflag hheld
        · obtain rfl : occupied = flag := by simpa using hflag
          obtain rfl : content = held := by simpa using hheld
          simpa using hcontent
        · have hk := hslots k flag held (by simpa using hflag) (by simpa using hheld)
          rwa [Nat.add_assoc, Nat.add_comm 1] at hk
      · rintro ⟨hle, hcount, hslots⟩
        obtain ⟨content, slots, rfl⟩ := List.exists_cons_of_length_eq_add_one hcount
        refine ⟨content, slots, by simpa using hslots 0 occupied content rfl rfl,
          ⟨by omega, by simpa using hcount, ?_⟩, rfl⟩
        intro k flag held hflag hheld
        rw [Nat.add_assoc, Nat.add_comm 1]
        exact hslots (k + 1) flag held (by simpa using hflag) (by simpa using hheld)
    · rw [decodeSlots, Bytes.window?, List.drop_zero, if_neg (by simp; omega)]
      constructor
      · intro h
        cases h
      · rintro ⟨hle, -⟩
        omega

/-! ## Reading a page -/

/-- An image that can be read: the bytes of all slots are there, and every slot that the map tells
occupied spells a row. -/
structure Legible (schema : Schema) (layout : Layout) (image : Bytes) : Prop where
  length_le : layout.slotOffset layout.slots ≤ image.length
  spelled : ∀ slot, slot < layout.slots → SlotMap.bitAt image slot = true →
    ∃ values, Row.Spelled schema.types (layout.slotBytes image slot) values

/-- The bits of an image that are not read: those of the map past the last slot, those of empty
slots, those of the padding of texts, and those behind the last slot. -/
inductive Ignored (schema : Schema) (layout : Layout) (image : Bytes) : Nat → Prop
  | tail {i : Nat} : layout.slots ≤ i → i < 8 * layout.headerSize → Ignored schema layout image i
  | vacant {i slot k : Nat} : slot < layout.slots → SlotMap.bitAt image slot = false →
      k < layout.rowSize → i / 8 = layout.slotOffset slot + k → Ignored schema layout image i
  | padding {i slot k : Nat} {values : List Value} : slot < layout.slots →
      SlotMap.bitAt image slot = true →
      Row.Spelled schema.types (layout.slotBytes image slot) values →
      Row.Padding schema.types values k → i / 8 = layout.slotOffset slot + k →
      Ignored schema layout image i
  | rest {i : Nat} : layout.slotOffset layout.slots ≤ i / 8 → Ignored schema layout image i

/-- The map and the slots that are read from an image. -/
structure Reads (page : PageId) (schema : Schema) (layout : Layout) (image : Bytes)
    (header : SlotMap) (slots : List (Option Row)) : Prop where
  length_le : layout.slotOffset layout.slots ≤ image.length
  wellFormed : header.WellFormed
  slots_eq : header.slots = layout.slots
  isSet_eq : ∀ i, i < layout.slots → header.isSet i = SlotMap.bitAt image i
  length_eq : slots.length = layout.slots
  contains : ∀ (i : Nat) (content : Option Row), slots[i]? = some content →
    Contains page schema i (layout.slotBytes image i) (SlotMap.bitAt image i) content

variable {pageSize : Nat} {image other : Bytes} {header : SlotMap} {p : Page}

theorem rowSize_of_ofSchema (h : Layout.ofSchema schema pageSize = .ok layout) :
    layout.rowSize = schema.rowSize := by
  obtain ⟨rfl, -⟩ := layout_of_ofSchema h
  rfl

theorem exists_read? (hlen : layout.slotOffset layout.slots ≤ image.length) :
    ∃ m, SlotMap.read? image layout.slots = some m := by
  cases hread : SlotMap.read? image layout.slots with
  | some m => exact ⟨m, rfl⟩
  | none =>
    have hshort : image.length < layout.headerSize := SlotMap.read?_eq_none.1 hread
    have hheader := layout.headerSize_le_slotOffset layout.slots
    omega

theorem Reads.lt_slots {content : Option Row} (h : Reads page schema layout image header slots)
    (hcontent : slots[slot]? = some content) : slot < layout.slots :=
  h.length_eq ▸ (List.getElem?_eq_some_iff.1 hcontent).1

theorem reads_iff (hrow : layout.rowSize = schema.rowSize) :
    Reads page schema layout image header slots ↔
      SlotMap.read? image layout.slots = some header ∧
        decodeSlots page schema layout image.length 0 header.flags
          (image.drop layout.headerSize) = .ok slots := by
  have hslot (k : Nat) : ((image.drop layout.headerSize).drop (k * layout.rowSize)).take
      layout.rowSize = layout.slotBytes image k := by
    rw [Layout.slotBytes, Layout.slotOffset, List.drop_drop]
  simp only [decodeSlots_eq_ok_iff hrow, hslot, List.length_drop, Nat.zero_add]
  constructor
  · intro h
    obtain ⟨m, hread⟩ := exists_read? h.length_le
    obtain ⟨hwf, heq, -, hset⟩ := SlotMap.read?_eq_some hread
    obtain rfl : m = header := by
      refine hwf.eq_of_isSet h.wellFormed (heq.trans h.slots_eq.symm) fun i => ?_
      rw [hset]
      by_cases hi : i < layout.slots
      · simp [hi, h.isSet_eq]
      · rw [SlotMap.isSet_eq_false (h.slots_eq.symm ▸ Nat.le_of_not_lt hi)]
        simp [hi]
    rw [SlotMap.flags_eq hwf.length_eq, List.length_map, List.length_range, heq]
    have hlen := h.length_le
    rw [Layout.slotOffset] at hlen
    refine ⟨hread, by omega, h.length_eq, ?_⟩
    intro k occupied content hflag hcontent
    have hk := h.lt_slots hcontent
    obtain rfl : SlotMap.bitAt image k = occupied := by
      simpa [heq, hk, h.isSet_eq] using hflag
    exact h.contains k content hcontent
  · rintro ⟨hread, hlen, hcount, hslots⟩
    obtain ⟨hwf, heq, hle, hset⟩ := SlotMap.read?_eq_some hread
    rw [SlotMap.flags_eq hwf.length_eq] at hlen hcount hslots
    simp only [List.length_map, List.length_range, heq] at hlen hcount
    have hle : layout.headerSize ≤ image.length := hle
    refine ⟨by rw [Layout.slotOffset]; omega, hwf, heq, ?_, hcount, ?_⟩
    · intro i hi
      simp [hset, hi]
    · intro i content hcontent
      have hi : i < layout.slots := hcount ▸ (List.getElem?_eq_some_iff.1 hcontent).1
      refine hslots i _ content ?_ hcontent
      simp [heq, hi, hset]

theorem Reads.exists_contains (h : Reads page schema layout image header slots)
    (hslot : slot < layout.slots) : ∃ content, slots[slot]? = some content ∧
      Contains page schema slot (layout.slotBytes image slot) (SlotMap.bitAt image slot)
        content := by
  have hcontent := List.getElem?_eq_getElem (h.length_eq.symm ▸ hslot)
  exact ⟨_, hcontent, h.contains slot _ hcontent⟩

theorem Reads.isSet_iff (h : Reads page schema layout image header slots) :
    header.isSet slot = true ↔ slot < layout.slots ∧ SlotMap.bitAt image slot = true := by
  by_cases hslot : slot < layout.slots
  · simp [hslot, h.isSet_eq]
  · rw [SlotMap.isSet_eq_false (h.slots_eq.symm ▸ Nat.le_of_not_lt hslot)]
    simp [hslot]

/-- The rows that are read are the ones that the occupied slots spell. -/
theorem Reads.row_iff (h : Reads page schema layout image header slots) :
    slots[slot]? = some (some r) ↔
      slot < layout.slots ∧ SlotMap.bitAt image slot = true ∧
        ∃ values, Row.Spelled schema.types (layout.slotBytes image slot) values ∧
          r = ⟨schema, values, some ⟨page, slot⟩⟩ := by
  constructor
  · intro hr
    refine ⟨h.lt_slots hr, ?_⟩
    have hcontains := h.contains slot (some r) hr
    generalize SlotMap.bitAt image slot = occupied at hcontains
    cases hcontains with
    | occupied hspelled => exact ⟨rfl, _, hspelled, rfl⟩
  · rintro ⟨hslot, hbit, values, hspelled, rfl⟩
    obtain ⟨content, hcontent, hcontains⟩ := h.exists_contains hslot
    rw [hbit] at hcontains
    cases hcontains with
    | occupied hread => rw [hcontent, hspelled.unique hread]

/-- A page comes from exactly the images that tell its map and its slots. -/
theorem decode_eq_ok_iff_reads (hlayout : Layout.ofSchema schema pageSize = .ok layout) :
    decode page schema pageSize image = .ok p ↔
      ∃ header slots, Reads page schema layout image header slots ∧
        p = snapshot ⟨page, schema, layout, header, slots, .clean, []⟩ := by
  rw [decode_eq_ok]
  constructor
  · rintro ⟨_, header, slots, hlayout', hread, hslots, rfl⟩
    obtain rfl := Except.ok.inj (hlayout.symm.trans hlayout')
    exact ⟨header, slots, (reads_iff (rowSize_of_ofSchema hlayout)).2 ⟨hread, hslots⟩, rfl⟩
  · rintro ⟨header, slots, hreads, rfl⟩
    obtain ⟨hread, hslots⟩ := (reads_iff (rowSize_of_ofSchema hlayout)).1 hreads
    exact ⟨layout, header, slots, hlayout, hread, hslots, rfl⟩

theorem legible_iff (page : PageId) :
    Legible schema layout image ↔ ∃ header slots, Reads page schema layout image header slots := by
  constructor
  · intro h
    have hcontent (slot : Nat) : ∃ content, slot < layout.slots →
        Contains page schema slot (layout.slotBytes image slot) (SlotMap.bitAt image slot)
          content := by
      cases hbit : SlotMap.bitAt image slot with
      | false => exact ⟨none, fun _ => .vacant⟩
      | true =>
        by_cases hslot : slot < layout.slots
        · obtain ⟨values, hspelled⟩ := h.spelled slot hslot hbit
          exact ⟨_, fun _ => .occupied hspelled⟩
        · exact ⟨none, fun hlt => absurd hlt hslot⟩
    choose content hcontent using hcontent
    obtain ⟨header, hread⟩ := exists_read? h.length_le
    obtain ⟨hwf, heq, -, hset⟩ := SlotMap.read?_eq_some hread
    refine ⟨header, (List.range layout.slots).map content, h.length_le, hwf, heq, ?_, by simp, ?_⟩
    · intro i hi
      simp [hset, hi]
    · intro i held hi
      obtain ⟨hlt, rfl⟩ := List.getElem?_eq_some_iff.1 hi
      simpa using hcontent i (by simpa using hlt)
  · rintro ⟨header, slots, h⟩
    refine ⟨h.length_le, ?_⟩
    intro slot hslot hbit
    obtain ⟨content, hcontent, hcontains⟩ := h.exists_contains hslot
    rw [hbit] at hcontains
    cases hcontains with
    | occupied hspelled => exact ⟨_, hspelled⟩

theorem not_ignored_of_lt {i : Nat} (hi : i < layout.slots) : ¬ Ignored schema layout image i := by
  have hheader : i / 8 < layout.headerSize := by
    rw [Layout.headerSize]
    omega
  have hslot (slot : Nat) : i / 8 < layout.slotOffset slot :=
    Nat.lt_of_lt_of_le hheader (layout.headerSize_le_slotOffset slot)
  intro h
  cases h with
  | tail hle _ => omega
  | @vacant slot _ _ _ _ hat | @padding slot _ _ _ _ _ _ hat =>
    have := hslot slot
    omega
  | rest hle =>
    have := hslot layout.slots
    omega

/-- In a slot, all of an empty one and the padding of a row are ignored. -/
theorem ignored_in_slot_iff {i k : Nat} (hrow : layout.rowSize = schema.rowSize)
    (hslot : slot < layout.slots) (hk : k < layout.rowSize)
    (hi : i / 8 = layout.slotOffset slot + k) :
    Ignored schema layout image i ↔ SlotMap.bitAt image slot = false ∨
      SlotMap.bitAt image slot = true ∧ ∃ values,
        Row.Spelled schema.types (layout.slotBytes image slot) values ∧
          Row.Padding schema.types values k := by
  constructor
  · intro h
    cases h with
    | tail _ hlt =>
      have := layout.headerSize_le_slotOffset slot
      omega
    | vacant _ hbit hj hat =>
      obtain ⟨rfl, -⟩ := Layout.slotOffset_add_inj hk hj (hi.symm.trans hat)
      exact .inl hbit
    | @padding _ _ values _ hbit hspelled hpadding hat =>
      have hj := Nat.lt_of_lt_of_eq hpadding.lt_total hrow.symm
      obtain ⟨rfl, rfl⟩ := Layout.slotOffset_add_inj hk hj (hi.symm.trans hat)
      exact .inr ⟨hbit, values, hspelled, hpadding⟩
    | rest hle =>
      have := Layout.slotOffset_add_lt hslot hk
      omega
  · rintro (hbit | ⟨hbit, values, hspelled, hpadding⟩)
    · exact .vacant hslot hbit hk hi
    · exact .padding hslot hbit hspelled hpadding hi

/-- What is ignored can be anything. -/
theorem Reads.congr (hrow : layout.rowSize = schema.rowSize)
    (h : Reads page schema layout image header slots)
    (hlen : layout.slotOffset layout.slots ≤ other.length)
    (hagree : ∀ i, ¬ Ignored schema layout image i →
      SlotMap.bitAt other i = SlotMap.bitAt image i) :
    Reads page schema layout other header slots := by
  have hbits {i : Nat} (hi : i < layout.slots) := hagree i (not_ignored_of_lt hi)
  refine ⟨hlen, h.wellFormed, h.slots_eq, ?_, h.length_eq, ?_⟩
  · intro i hi
    rw [hbits hi, h.isSet_eq i hi]
  · intro i content hcontent
    have hi := h.lt_slots hcontent
    have hcontains := h.contains i content hcontent
    rw [hbits hi]
    generalize hbit : SlotMap.bitAt image i = occupied at hcontains
    cases hcontains with
    | vacant => exact .vacant
    | @occupied values hspelled =>
      refine .occupied (hspelled.congr ?_ fun k hk => ?_)
      · rw [Layout.length_slotBytes hi hlen, Layout.length_slotBytes hi h.length_le]
      · by_cases hlt : k < layout.rowSize
        · rw [Layout.getD_slotBytes hlt, Layout.getD_slotBytes hlt]
          refine SlotMap.getD_eq_of_bitAt_eq fun b hb => hagree b ?_
          rw [ignored_in_slot_iff hrow hi hlt hb]
          rintro (hvacant | ⟨-, read, hread, hpadding⟩)
          · rw [hbit] at hvacant
            cases hvacant
          · exact hk (hspelled.unique hread ▸ hpadding)
        · rw [List.getD_eq_default, List.getD_eq_default] <;>
            simp only [Layout.slotBytes, List.length_take] <;> omega

/-! ## Writing the page again -/

/-- One of several blocks of the same length. -/
theorem take_drop_flatMap {α : Type} {f : α → Bytes} {n k : Nat} {xs : List α} {x : α}
    (hlen : ∀ y ∈ xs, (f y).length = n) (hk : xs[k]? = some x) (rest : Bytes) :
    ((xs.flatMap f ++ rest).drop (k * n)).take n = f x := by
  induction xs generalizing k with
  | nil => cases hk
  | cons y ys ih =>
    obtain ⟨hy, hys⟩ := List.forall_mem_cons.1 hlen
    rw [List.flatMap_cons, List.append_assoc]
    cases k with
    | zero =>
      obtain rfl : y = x := by simpa using hk
      rw [Nat.zero_mul, List.drop_zero, List.take_left' hy]
    | succ k =>
      rw [Nat.succ_mul, Nat.add_comm, ← List.drop_drop, List.drop_left' hy]
      exact ih hys (by simpa using hk)

namespace Sound

variable (h : p.Sound)

include h

theorem length_bits : p.header.bits.length = p.layout.headerSize := by
  rw [h.header.length_eq, h.slots_eq]
  rfl

/-- The map is written in front. -/
theorem bitAt_encode_of_lt {i : Nat} (hi : i < 8 * p.layout.headerSize) :
    SlotMap.bitAt p.encode i = p.header.isSet i := by
  obtain ⟨n, hencode⟩ := h.encode_eq
  have hlt : i / 8 < p.header.bits.length := by
    rw [h.length_bits]
    omega
  rw [SlotMap.isSet_eq_bitAt h.header, hencode, SlotMap.bitAt, SlotMap.bitAt,
    List.getD_append _ _ _ _ hlt]

/-- Each slot is written at its place. -/
theorem slotBytes_encode {content : Option Row} (hcontent : p.slots[slot]? = some content) :
    p.layout.slotBytes p.encode slot = slotImage p.layout content := by
  obtain ⟨n, hencode⟩ := h.encode_eq
  rw [Layout.slotBytes, Layout.slotOffset, hencode, ← List.drop_drop,
    List.drop_left' h.length_bits]
  refine take_drop_flatMap (fun y hy => ?_) hcontent _
  obtain ⟨k, hk⟩ := List.getElem?_of_mem hy
  exact length_slotImage h.rowSize_eq fun r hr => h.housed_at k r (hr ▸ hk)

/-- Zeros are written behind the last slot. -/
theorem getD_encode_rest {k : Nat} (hk : p.layout.slotOffset p.layout.slots ≤ k) :
    p.encode.getD k 0 = 0 := by
  obtain ⟨n, hencode⟩ := h.encode_eq
  have hlen : (p.header.bits ++ p.slots.flatMap (slotImage p.layout)).length =
      p.layout.slotOffset p.layout.slots := by
    rw [List.length_append, h.length_bits, length_images h.rowSize_eq h.housed_at, h.length_eq,
      Layout.slotOffset]
  rw [hencode, ← List.append_assoc, List.getD_append_right _ _ _ _ (by omega), Bytes.getD_zeros]

end Sound

theorem reads_of_decode (hlayout : Layout.ofSchema schema pageSize = .ok layout)
    (hp : decode page schema pageSize image = .ok p) :
    Reads page schema layout image p.header p.slots ∧ p.layout = layout := by
  obtain ⟨header, slots, hreads, rfl⟩ := (decode_eq_ok_iff_reads hlayout).1 hp
  exact ⟨hreads, rfl⟩

/-- Of an image that was read, what is ignored is written as zero, and everything else as it was. -/
theorem bitAt_encode (hlayout : Layout.ofSchema schema pageSize = .ok layout)
    (hp : decode page schema pageSize image = .ok p) (i : Nat) :
    (Ignored schema layout image i → SlotMap.bitAt p.encode i = false) ∧
      (¬ Ignored schema layout image i →
        SlotMap.bitAt p.encode i = SlotMap.bitAt image i) := by
  have hsound := Sound.of_decode hp
  obtain ⟨hreads, rfl⟩ := reads_of_decode hlayout hp
  have hrow := rowSize_of_ofSchema hlayout
  have hzero := SlotMap.bit_zero i
  by_cases hheader : i < 8 * p.layout.headerSize
  · rw [hsound.bitAt_encode_of_lt hheader]
    by_cases hi : i < p.layout.slots
    · exact ⟨fun h => absurd h (not_ignored_of_lt hi), fun _ => hreads.isSet_eq i hi⟩
    · have hle := Nat.le_of_not_lt hi
      exact ⟨fun _ => SlotMap.isSet_eq_false (hreads.slots_eq.symm ▸ hle),
        fun h => absurd (.tail hle hheader) h⟩
  · by_cases hrest : i / 8 < p.layout.slotOffset p.layout.slots
    · obtain ⟨slot, k, hslot, hk, hat⟩ := Layout.exists_slotOffset_add (by omega) hrest
      obtain ⟨content, hcontent, hcontains⟩ := hreads.exists_contains hslot
      have hwritten : SlotMap.bitAt p.encode i =
          SlotMap.bit ((slotImage p.layout content).getD k 0) i := by
        rw [SlotMap.bitAt, hat, ← Layout.getD_slotBytes hk, hsound.slotBytes_encode hcontent]
      have hread : SlotMap.bitAt image i =
          SlotMap.bit ((p.layout.slotBytes image slot).getD k 0) i := by
        rw [SlotMap.bitAt, hat, Layout.getD_slotBytes hk]
      rw [ignored_in_slot_iff hrow hslot hk hat, hwritten, hread]
      generalize hbit : SlotMap.bitAt image slot = occupied at hcontains
      cases hcontains with
      | vacant =>
        rw [slotImage, Bytes.getD_zeros, hzero]
        exact ⟨fun _ => rfl, fun h => absurd (.inl rfl) h⟩
      | @occupied values hspelled =>
        obtain ⟨hpadding, hplain⟩ := hspelled.getD_encode k
        constructor
        · rintro (hvacant | ⟨-, others, hothers, hpadded⟩)
          · cases hvacant
          · obtain rfl := hspelled.unique hothers
            rw [slotImage, Row.encode, hpadding hpadded, hzero]
        · intro h
          rw [slotImage, Row.encode, hplain fun hpadded =>
            h (.inr ⟨rfl, values, hspelled, hpadded⟩)]
    · have hle := Nat.le_of_not_lt hrest
      rw [SlotMap.bitAt, hsound.getD_encode_rest hle, hzero]
      exact ⟨fun _ => rfl, fun h => absurd (.rest hle) h⟩

/-- What a page that was read from an image has to do with it. -/
structure Normal (page : PageId) (schema : Schema) (pageSize : Nat) (layout : Layout)
    (image : Bytes) (p : Page) : Prop where
  id_eq : p.id = page
  schema_eq : p.schema = schema
  layout_eq : p.layout = layout
  slots_length : p.slots.length = layout.slots
  isSet_iff : ∀ slot, p.header.isSet slot = true ↔
    slot < layout.slots ∧ SlotMap.bitAt image slot = true
  row?_iff : ∀ slot r, p.row? slot = some r ↔
    slot < layout.slots ∧ SlotMap.bitAt image slot = true ∧
      ∃ values, Row.Spelled schema.types (layout.slotBytes image slot) values ∧
        r = ⟨schema, values, some ⟨page, slot⟩⟩
  decode_other : ∀ other : Bytes, layout.slotOffset layout.slots ≤ other.length →
    (∀ i, ¬ Ignored schema layout image i → SlotMap.bitAt other i = SlotMap.bitAt image i) →
    decode page schema pageSize other = .ok p
  decode_encode : decode page schema pageSize p.encode = .ok p
  encode_eq_iff : image.length = pageSize →
    (p.encode = image ↔ ∀ i, Ignored schema layout image i → SlotMap.bitAt image i = false)

/-- An image is read if and only if it is legible, and the page that it gives depends on what is
not ignored in it alone. -/
theorem decode_normalizes (hlayout : Layout.ofSchema schema pageSize = .ok layout)
    (page : PageId) (image : Bytes) :
    ((∃ p, decode page schema pageSize image = .ok p) ↔ Legible schema layout image) ∧
      ∀ p, decode page schema pageSize image = .ok p →
        Normal page schema pageSize layout image p := by
  refine ⟨⟨?_, ?_⟩, ?_⟩
  · rintro ⟨p, hp⟩
    exact (legible_iff page).2 ⟨_, _, (reads_of_decode hlayout hp).1⟩
  · intro h
    obtain ⟨header, slots, hreads⟩ := (legible_iff page).1 h
    exact ⟨_, (decode_eq_ok_iff_reads hlayout).2 ⟨header, slots, hreads, rfl⟩⟩
  · intro p hp
    have hsound := Sound.of_decode hp
    have hwritten := bitAt_encode hlayout hp
    obtain ⟨header, slots, hreads, rfl⟩ := (decode_eq_ok_iff_reads hlayout).1 hp
    have hother (other : Bytes) (hlen : layout.slotOffset layout.slots ≤ other.length)
        (hagree : ∀ i, ¬ Ignored schema layout image i →
          SlotMap.bitAt other i = SlotMap.bitAt image i) :=
      (decode_eq_ok_iff_reads hlayout).2
        ⟨header, slots, hreads.congr (rowSize_of_ofSchema hlayout) hlen hagree, rfl⟩
    have hlength : (snapshot ⟨page, schema, layout, header, slots, .clean, []⟩).encode.length =
        pageSize := (Bytes.length_fit _ _).trans (pageSize_of_decode hp)
    refine
      { id_eq := rfl
        schema_eq := rfl
        layout_eq := rfl
        slots_length := hreads.length_eq
        isSet_iff := ?_
        row?_iff := ?_
        decode_other := hother
        decode_encode := hother _ ?_ fun i => (hwritten i).2
        encode_eq_iff := ?_ }
    · exact fun slot => hreads.isSet_iff
    · exact fun slot r => row?_eq_some.trans hreads.row_iff
    · rw [hlength, ← pageSize_of_decode hp]
      exact hsound.extent_le
    · intro himage
      constructor
      · intro heq i hi
        rw [← heq]
        exact (hwritten i).1 hi
      · intro hzero
        refine SlotMap.eq_of_bitAt_eq (hlength.trans himage.symm) fun i => ?_
        by_cases hi : Ignored schema layout image i
        · rw [(hwritten i).1 hi, hzero i hi]
        · exact (hwritten i).2 hi

/-- Two slots, the first with a padded text. All that can be ignored is something else than zero:
six bits of the map, the padding, the second slot, and two bytes at the end. -/
theorem decode_normalizes_garbage :
    ∃ (layout : Layout) (p : Page) (image : Bytes),
      image = [0xFD, 0, 0, 0, 5, 0, 0, 0, 3, 97, 110, 110, 0x2A] ++ List.replicate 14 9 ∧
      Layout.ofSchema ⟨[⟨.int, none⟩, ⟨.text 8, none⟩]⟩ 27 = .ok layout ∧
      decode ⟨7, 0⟩ ⟨[⟨.int, none⟩, ⟨.text 8, none⟩]⟩ 27 image = .ok p ∧
      p.cells = [some [.int 5, .text "ann"], none] ∧
      p.encode = [1, 0, 0, 0, 5, 0, 0, 0, 3, 97, 110, 110, 0] ++ Bytes.zeros 14 ∧
      Legible ⟨[⟨.int, none⟩, ⟨.text 8, none⟩]⟩ layout image ∧
      Normal ⟨7, 0⟩ ⟨[⟨.int, none⟩, ⟨.text 8, none⟩]⟩ 27 layout image p := by
  obtain ⟨layout, hlayout⟩ : ∃ layout,
      Layout.ofSchema ⟨[⟨.int, none⟩, ⟨.text 8, none⟩]⟩ 27 = .ok layout := ⟨_, rfl⟩
  obtain ⟨p, hp⟩ : ∃ p, decode ⟨7, 0⟩ ⟨[⟨.int, none⟩, ⟨.text 8, none⟩]⟩ 27
    ([0xFD, 0, 0, 0, 5, 0, 0, 0, 3, 97, 110, 110, 0x2A] ++ List.replicate 14 9) = .ok p := ⟨_, rfl⟩
  obtain ⟨hlegible, hnormal⟩ := decode_normalizes hlayout ⟨7, 0⟩
    ([0xFD, 0, 0, 0, 5, 0, 0, 0, 3, 97, 110, 110, 0x2A] ++ List.replicate 14 9)
  refine ⟨layout, p, _, rfl, hlayout, hp, ?_, ?_, hlegible.1 ⟨p, hp⟩, hnormal p hp⟩
  · cases hp
    rfl
  · cases hp
    rfl

end Page

end RowStore
