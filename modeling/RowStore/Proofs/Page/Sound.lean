import RowStore.Page
import RowStore.Page.SlotMap.Lemmas
import RowStore.Row.Lemmas

/-!
# Sound pages

A page is sound when its slot map tells the occupied slots and every stored row is at home in its
slot. Decoding yields only sound pages, and inserting, deleting and marking keep a page sound.
-/

namespace RowStore

namespace Except

theorem bind_eq_ok {ε α β : Type} {x : Except ε α} {f : α → Except ε β} {b : β} :
    (x >>= f) = .ok b ↔ ∃ a, x = .ok a ∧ f a = .ok b := by
  cases x with
  | error e => simp [bind, Except.bind]
  | ok a => simp [bind, Except.bind]

theorem map_eq_ok {ε α β : Type} {f : α → β} {x : Except ε α} {b : β} :
    f <$> x = .ok b ↔ ∃ a, x = .ok a ∧ f a = b := by
  cases x with
  | error e => simp [Functor.map, Except.map]
  | ok a => simp [Functor.map, Except.map]

end Except

/-- A row that may stand in a slot of a page: it has the page's column types, values that they
take, and the slot as its place. -/
structure Row.Housed (page : PageId) (schema : Schema) (slot : Nat) (r : Row) : Prop where
  types_eq : r.schema.types = schema.types
  fits : Row.AllFit schema.types r.values
  place_eq : r.place = some ⟨page, slot⟩

theorem Row.fits_of_decodeValues {ts : List ColumnType} {bytes : Bytes} {vs : List Value}
    (h : Row.decodeValues ts bytes = .ok vs) : Row.AllFit ts vs := by
  induction ts generalizing bytes vs with
  | nil =>
    obtain rfl : [] = vs := by simpa [Row.decodeValues] using h
    exact .nil
  | cons t ts ih =>
    simp only [Row.decodeValues] at h
    obtain ⟨v, hv, h⟩ := Except.bind_eq_ok.1 h
    obtain ⟨rest, hrest, h⟩ := Except.bind_eq_ok.1 h
    obtain rfl : v :: rest = vs := by simpa [pure, Except.pure] using h
    exact .cons (ColumnType.fits_of_decode hv) (ih hrest)

namespace Page

variable {p : Page} {r placed : Row} {page : PageId} {schema : Schema} {layout : Layout}

theorem housed_of_decodeRow {slot : Nat} {bytes : Bytes}
    (h : decodeRow page schema slot bytes = .ok r) : r.Housed page schema slot := by
  obtain ⟨s, hs, h⟩ := Except.bind_eq_ok.1 h
  obtain ⟨vs, hvs, hs⟩ := Except.bind_eq_ok.1 hs
  obtain rfl : ⟨schema, vs, none⟩ = s := by simpa [pure, Except.pure] using hs
  obtain rfl : ⟨schema, vs, some ⟨page, slot⟩⟩ = r := by simpa [pure, Except.pure] using h
  exact ⟨rfl, Row.fits_of_decodeValues hvs, rfl⟩

/-- The slots that are read are occupied as the flags say, by rows that are at home there. -/
theorem decodeSlots_eq_ok {length slot : Nat} {flags : List Bool} {body : Bytes}
    {slots : List (Option Row)}
    (h : decodeSlots page schema layout length slot flags body = .ok slots) :
    slots.map Option.isSome = flags ∧
      ∀ k r, slots[k]? = some (some r) → Row.Housed page schema (slot + k) r := by
  induction flags generalizing slot body slots with
  | nil =>
    obtain rfl : slots = [] := by simpa [decodeSlots] using h.symm
    exact ⟨rfl, by simp⟩
  | cons occupied flags ih =>
    have later {others : List (Option Row)} {k : Nat} {r : Row}
        (hothers : decodeSlots page schema layout length (slot + 1) flags
          (body.drop layout.rowSize) = .ok others) (hk : others[k]? = some (some r)) :
        Row.Housed page schema (slot + (k + 1)) r := by
      have := (ih hothers).2 k r hk
      rwa [Nat.add_right_comm] at this
    simp only [decodeSlots] at h
    split at h
    · cases h
    · cases occupied with
      | false =>
        simp only [Bool.false_eq_true, if_false, pure_bind] at h
        obtain ⟨others, hothers, h⟩ := Except.bind_eq_ok.1 h
        obtain rfl : none :: others = slots := by simpa [pure, Except.pure] using h
        refine ⟨by simp [(ih hothers).1], ?_⟩
        intro k r hk
        cases k with
        | zero => simp at hk
        | succ k => exact later hothers (by simpa using hk)
      | true =>
        simp only [if_true] at h
        obtain ⟨first, hfirst, h⟩ := Except.bind_eq_ok.1 h
        obtain ⟨others, hothers, h⟩ := Except.bind_eq_ok.1 h
        obtain ⟨r, hr, rfl⟩ := Except.map_eq_ok.1 hfirst
        obtain rfl : some r :: others = slots := by simpa [pure, Except.pure] using h
        refine ⟨by simp [(ih hothers).1], ?_⟩
        intro k s hk
        cases k with
        | zero =>
          obtain rfl : r = s := by simpa using hk
          exact housed_of_decodeRow hr
        | succ k => exact later hothers (by simpa using hk)

/-- The slot map tells the occupied slots, and every stored row is at home. -/
structure Sound (p : Page) : Prop where
  layout_eq : Layout.ofSchema p.schema p.layout.pageSize = .ok p.layout
  header : p.header.WellFormed
  slots_eq : p.header.slots = p.layout.slots
  length_eq : p.slots.length = p.layout.slots
  isSet_eq : ∀ i, p.header.isSet i = (p.row? i).isSome
  housed : ∀ i r, p.row? i = some r → r.Housed p.id p.schema i

theorem row?_eq_some {i : Nat} : p.row? i = some r ↔ p.slots[i]? = some (some r) := by
  simp [row?, Option.join_eq_some_iff]

theorem decode_eq_ok {pageSize : Nat} {image : Bytes} :
    decode page schema pageSize image = .ok p ↔
      ∃ layout header slots, Layout.ofSchema schema pageSize = .ok layout ∧
        SlotMap.read? image layout.slots = some header ∧
        decodeSlots page schema layout image.length 0 header.flags
          (image.drop layout.headerSize) = .ok slots ∧
        p = snapshot ⟨page, schema, layout, header, slots, .clean, []⟩ := by
  constructor
  · intro h
    obtain ⟨layout, hlayout, h⟩ := Except.bind_eq_ok.1 h
    split at h
    · cases h
    · next header hheader =>
      obtain ⟨slots, hslots, h⟩ := Except.bind_eq_ok.1 h
      exact ⟨layout, header, slots, hlayout, hheader, hslots, by
        simpa [pure, Except.pure, eq_comm] using h⟩
  · rintro ⟨layout, header, slots, hlayout, hheader, hslots, rfl⟩
    simp [decode, hlayout, hheader, hslots, bind, Except.bind, pure, Except.pure]

theorem layout_of_ofSchema {pageSize : Nat} (h : Layout.ofSchema schema pageSize = .ok layout) :
    layout = ⟨pageSize, schema.rowSize, Layout.slotsFor schema.rowSize pageSize⟩ ∧
      0 < layout.slots := by
  simp only [Layout.ofSchema] at h
  split at h
  · cases h
  · next hne =>
    cases h
    exact ⟨rfl, Nat.pos_of_ne_zero hne⟩

/-- Whatever is read is sound. -/
theorem Sound.of_decode {pageSize : Nat} {image : Bytes}
    (h : decode page schema pageSize image = .ok p) : p.Sound := by
  obtain ⟨layout, header, slots, hlayout, hheader, hslots, rfl⟩ := decode_eq_ok.1 h
  obtain ⟨rfl, -⟩ := layout_of_ofSchema hlayout
  obtain ⟨hwf, hcount, -, -⟩ := SlotMap.read?_eq_some hheader
  obtain ⟨hflags, hhoused⟩ := decodeSlots_eq_ok hslots
  rw [SlotMap.flags_eq hwf.length_eq] at hflags
  have hlen : slots.length = header.slots := by simpa using congrArg List.length hflags
  refine ⟨hlayout, hwf, hcount, hlen.trans hcount, ?_, ?_⟩
  · intro i
    show header.isSet i = (slots[i]?).join.isSome
    by_cases hlt : i < header.slots
    · have hget : slots[i]? = some slots[i] := List.getElem?_eq_getElem (by omega)
      have hi := congrArg (fun l => l[i]?) hflags
      simp only [List.getElem?_map, hget, List.getElem?_range hlt, Option.map_some,
        Option.some.injEq] at hi
      simp [hget, hi]
    · have : slots[i]? = none := List.getElem?_eq_none (by omega)
      simp [this, SlotMap.isSet_eq_false (Nat.le_of_not_lt hlt)]
  · intro i r hr
    have := hhoused i r (row?_eq_some.1 hr)
    rwa [Nat.zero_add] at this

section

variable {pageSize : Nat} {image : Bytes} (h : decode page schema pageSize image = .ok p)

include h

theorem id_of_decode : p.id = page := by
  obtain ⟨_, _, _, _, _, _, rfl⟩ := decode_eq_ok.1 h
  rfl

theorem schema_of_decode : p.schema = schema := by
  obtain ⟨_, _, _, _, _, _, rfl⟩ := decode_eq_ok.1 h
  rfl

theorem pageSize_of_decode : p.layout.pageSize = pageSize := by
  obtain ⟨_, _, _, hlayout, _, _, rfl⟩ := decode_eq_ok.1 h
  obtain ⟨rfl, -⟩ := layout_of_ofSchema hlayout
  rfl

theorem isDirty_of_decode : p.isDirty = false := by
  obtain ⟨_, _, _, _, _, _, rfl⟩ := decode_eq_ok.1 h
  rfl

end

/-! ## Looking for a row -/

/-- The slot holds the row, but for the names of its columns and its place. -/
def HoldsAt (p : Page) (r : Row) (slot : Nat) : Prop := ∃ s, p.row? slot = some s ∧ s.Same r

/-- The slot that a page empties to give up a row: the one that the row names if it holds the row,
and the lowest that holds it otherwise. -/
inductive Gives (p : Page) (r : Row) : Nat → Prop
  | named {slot : Nat} : r.place = some ⟨p.id, slot⟩ → p.HoldsAt r slot → Gives p r slot
  | lowest {slot : Nat} : (∀ k, r.place = some ⟨p.id, k⟩ → ¬ p.HoldsAt r k) →
      p.HoldsAt r slot → (∀ i, i < slot → ¬ p.HoldsAt r i) → Gives p r slot

theorem Gives.holdsAt {slot : Nat} (h : p.Gives r slot) : p.HoldsAt r slot := by
  cases h with
  | named _ hholds => exact hholds
  | lowest _ hholds _ => exact hholds

theorem holds_row?_iff {slot : Nat} : holds r (p.row? slot) = true ↔ p.HoldsAt r slot := by
  unfold HoldsAt
  cases p.row? slot <;> simp [holds]

/-- The slot that the row names is tried first. -/
theorem hintedSlot?_eq_some {slot : Nat} :
    p.hintedSlot? r = some slot ↔ r.place = some ⟨p.id, slot⟩ ∧ p.HoldsAt r slot := by
  unfold hintedSlot?
  cases hplace : r.place with
  | none => simp
  | some spot =>
    obtain ⟨page, k⟩ := spot
    simp only [Option.ite_none_right_eq_some, Option.some.injEq, holds_row?_iff, RowId.mk.injEq]
    constructor
    · rintro ⟨⟨hpage, hholds⟩, rfl⟩
      exact ⟨⟨hpage, rfl⟩, hholds⟩
    · rintro ⟨⟨hpage, rfl⟩, hholds⟩
      exact ⟨⟨hpage, hholds⟩, rfl⟩

/-- The slot that a deletion vacates is the one that the page gives up. -/
theorem gives_of_slotOf? {slot : Nat} (h : p.slotOf? r = some slot) : p.Gives r slot := by
  cases hhint : p.hintedSlot? r with
  | some hinted =>
    obtain rfl : hinted = slot := by simpa [slotOf?, hhint] using h
    obtain ⟨hplace, hholds⟩ := hintedSlot?_eq_some.1 hhint
    exact .named hplace hholds
  | none =>
    have hfound : p.slots.findIdx? (holds r) = some slot := by simpa [slotOf?, hhint] using h
    obtain ⟨hlt, hholds, hbelow⟩ := List.findIdx?_eq_some_iff_getElem.1 hfound
    have hrow {i : Nat} (hi : i < p.slots.length) : p.row? i = p.slots[i] := by
      rw [row?, List.getElem?_eq_getElem hi, Option.join_some]
    refine .lowest ?_ (holds_row?_iff.1 (hrow hlt ▸ hholds)) ?_
    · intro k hplace hk
      rw [hintedSlot?_eq_some.2 ⟨hplace, hk⟩] at hhint
      cases hhint
    · intro i hi hk
      exact hbelow i hi (hrow (Nat.lt_trans hi hlt) ▸ holds_row?_iff.2 hk)

/-- A page gives up nothing only if it holds the row nowhere. -/
theorem slotOf?_eq_none : p.slotOf? r = none ↔ ∀ i, ¬ p.HoldsAt r i := by
  constructor
  · rintro h i ⟨s, hs, hsame⟩
    obtain ⟨-, hfound⟩ := Option.or_eq_none_iff.1 h
    have hmem := List.mem_of_getElem? (row?_eq_some.1 hs)
    have hholds := holds_row?_iff.2 ⟨s, hs, hsame⟩
    rw [hs, List.findIdx?_eq_none_iff.1 hfound _ hmem] at hholds
    cases hholds
  · intro h
    cases hslot : p.slotOf? r with
    | none => rfl
    | some slot => exact absurd (gives_of_slotOf? hslot).holdsAt (h slot)

theorem row?_of_slotOf? {slot : Nat} (h : p.slotOf? r = some slot) :
    ∃ s, p.row? slot = some s ∧ s.Same r := (gives_of_slotOf? h).holdsAt

/-! ## Changes to a page -/

theorem Sound.slot_lt {i : Nat} (h : p.Sound) (hr : p.row? i = some r) : i < p.layout.slots := by
  have := (List.getElem?_eq_some_iff.1 (row?_eq_some.1 hr)).1
  rwa [h.length_eq] at this

/-- An insertion that succeeds fills the lowest empty slot and nothing else. -/
theorem insert_eq_ok {q : Page} :
    p.insert r = .ok (q, placed) ↔
      r.schema.types = p.schema.types ∧ ∃ slot, p.header.lowestEmpty? = some slot ∧
        placed = { r with place := some ⟨p.id, slot⟩ } ∧
        q = { p with header := p.header.set slot, slots := p.slots.set slot (some placed) } := by
  unfold insert
  split
  · next hne => simp [hne]
  · next heq =>
    have heq := Decidable.not_not.1 heq
    cases hslot : p.header.lowestEmpty? with
    | none => simp
    | some slot =>
      simp only [Except.ok.injEq, Prod.mk.injEq, heq, true_and, Option.some.injEq,
        exists_eq_left']
      constructor
      · rintro ⟨rfl, rfl⟩
        exact ⟨rfl, rfl⟩
      · rintro ⟨rfl, rfl⟩
        exact ⟨rfl, rfl⟩

/-- A row is refused for its types first, and for want of room then. -/
theorem insert_eq_error {e : StorageError} :
    p.insert r = .error e ↔ (r.schema.types ≠ p.schema.types ∧ e = .schemaMismatch) ∨
      (r.schema.types = p.schema.types ∧ p.header.lowestEmpty? = none ∧ e = .pageFull p.id) := by
  unfold insert
  split
  · next hne => simp [hne, eq_comm]
  · next heq =>
    have heq := Decidable.not_not.1 heq
    cases p.header.lowestEmpty? <;> simp [heq, eq_comm]

theorem row?_set {slots : List (Option Row)} {slot : Nat} (hlt : slot < slots.length)
    (content : Option Row) (i : Nat) :
    ((slots.set slot content)[i]?).join = if i = slot then content else (slots[i]?).join := by
  rw [List.getElem?_set]
  by_cases h : slot = i
  · subst h
    simp [hlt]
  · simp [h, Ne.symm h]

/-- One slot of a page has another content, and the map says so. Nothing else is different. -/
structure SetAt (p : Page) (slot : Nat) (content : Option Row) (q : Page) : Prop where
  row?_eq : ∀ i, q.row? i = if i = slot then content else p.row? i
  isSet_eq : ∀ i, q.header.isSet i = (q.row? i).isSome
  header : q.header.WellFormed
  slots_eq : q.header.slots = p.header.slots
  length_eq : q.slots.length = p.slots.length
  rest_eq : q = { p with header := q.header, slots := q.slots }

theorem Sound.of_setAt {q : Page} {slot : Nat} {content : Option Row} (h : p.Sound)
    (hset : p.SetAt slot content q)
    (hcontent : ∀ r, content = some r → r.Housed p.id p.schema slot) : q.Sound := by
  have hslots := hset.slots_eq.trans h.slots_eq
  have hlength := hset.length_eq.trans h.length_eq
  rw [hset.rest_eq]
  refine ⟨h.layout_eq, hset.header, hslots, hlength, hset.isSet_eq, ?_⟩
  intro i r hr
  have hr : q.row? i = some r := hr
  rw [hset.row?_eq] at hr
  split at hr
  · next hi => exact hi ▸ hcontent r hr
  · exact h.housed i r hr

/-- An insertion sets the lowest empty slot. -/
theorem Sound.setAt_insert {q : Page} (h : p.Sound) (hq : p.insert r = .ok (q, placed)) :
    ∃ slot, p.header.lowestEmpty? = some slot ∧
      placed = { r with place := some ⟨p.id, slot⟩ } ∧ p.SetAt slot (some placed) q := by
  obtain ⟨-, slot, hslot, rfl, rfl⟩ := insert_eq_ok.1 hq
  obtain ⟨hlt, -, -⟩ := (SlotMap.lowestEmpty?_eq_some h.header).1 hslot
  have hlen : slot < p.slots.length := by rw [h.length_eq, ← h.slots_eq]; exact hlt
  refine ⟨slot, hslot, rfl, row?_set hlen _, ?_, h.header.set hlt, rfl, by simp, rfl⟩
  intro i
  show _ = ((p.slots.set slot _)[i]?).join.isSome
  rw [SlotMap.isSet_set h.header.length_eq hlt, row?_set hlen, h.isSet_eq]
  by_cases hi : i = slot
  · simp [hi]
  · simp [hi, Ne.symm hi, row?]

theorem Sound.insert {q : Page} (h : p.Sound) (hfits : Row.AllFit r.schema.types r.values)
    (hq : p.insert r = .ok (q, placed)) : q.Sound := by
  obtain ⟨htypes, -⟩ := insert_eq_ok.1 hq
  obtain ⟨slot, -, rfl, hset⟩ := h.setAt_insert hq
  refine h.of_setAt hset fun s hs => ?_
  obtain rfl := Option.some.inj hs
  exact ⟨htypes, htypes ▸ hfits, rfl⟩

/-- A deletion that succeeds vacates the chosen slot and nothing else. -/
theorem delete_eq_ok {q : Page} :
    p.delete r = .ok (q, placed) ↔
      ∃ slot, p.slotOf? r = some slot ∧ placed = { r with place := none } ∧
        q = { p with header := p.header.clear slot, slots := p.slots.set slot none } := by
  unfold delete
  cases p.slotOf? r with
  | none => simp
  | some slot =>
    simp only [Except.ok.injEq, Prod.mk.injEq, Option.some.injEq, exists_eq_left']
    exact ⟨fun ⟨h, g⟩ => ⟨g.symm, h.symm⟩, fun ⟨g, h⟩ => ⟨h.symm, g.symm⟩⟩

theorem delete_eq_error {e : StorageError} :
    p.delete r = .error e ↔ p.slotOf? r = none ∧ e = .rowNotFound := by
  unfold delete
  cases p.slotOf? r <;> simp [eq_comm]

/-- A deletion empties the chosen slot. -/
theorem Sound.setAt_delete {q : Page} (h : p.Sound) (hq : p.delete r = .ok (q, placed)) :
    ∃ slot, p.slotOf? r = some slot ∧ placed = { r with place := none } ∧
      p.SetAt slot none q := by
  obtain ⟨slot, hslot, rfl, rfl⟩ := delete_eq_ok.1 hq
  obtain ⟨s, hs, -⟩ := row?_of_slotOf? hslot
  have hlt := h.slot_lt hs
  have hlen : slot < p.slots.length := by rwa [h.length_eq]
  rw [← h.slots_eq] at hlt
  refine ⟨slot, hslot, rfl, row?_set hlen _, ?_, h.header.clear hlt, rfl, by simp, rfl⟩
  intro i
  show _ = ((p.slots.set slot none)[i]?).join.isSome
  rw [SlotMap.isSet_clear h.header.length_eq hlt, row?_set hlen, h.isSet_eq]
  by_cases hi : i = slot
  · simp [hi]
  · simp [hi, Ne.symm hi, row?]

theorem Sound.delete {q : Page} (h : p.Sound) (hq : p.delete r = .ok (q, placed)) : q.Sound := by
  obtain ⟨slot, -, -, hset⟩ := h.setAt_delete hq
  exact h.of_setAt hset nofun

/-- Soundness is about the contents alone. -/
theorem Sound.relabel (h : p.Sound) (status : Status) (before : Bytes) :
    Sound { p with status := status, before := before } :=
  ⟨h.layout_eq, h.header, h.slots_eq, h.length_eq, h.isSet_eq, h.housed⟩

theorem markDirty_eq (p : Page) (owner? : Option TxnId) :
    p.markDirty owner? =
      { p with status := .dirty owner?, before := if p.isDirty then p.before else p.encode } := by
  unfold markDirty
  split <;> rfl

theorem Sound.markDirty (h : p.Sound) (owner? : Option TxnId) : (p.markDirty owner?).Sound := by
  rw [markDirty_eq]
  exact h.relabel _ _

theorem Sound.markClean (h : p.Sound) : p.markClean.Sound := h.relabel _ _

end Page

end RowStore
