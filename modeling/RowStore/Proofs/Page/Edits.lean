import RowStore.Action
import RowStore.Proofs.Page.Slots

/-!
# Calls on a page in memory

Storing and removing a row are told here as they happen, one field after another, in the page and in
the caller's row. A call that fails does so before it writes anything. Of whatever calls a page is
made, its map, the count kept in the map, its slots and the places of its rows tell the same story.
-/

namespace RowStore

namespace Page

/-! ## Calls step by step -/

namespace InPlace

/-- Write into the caller's row where it is stored. -/
def setPlace (place : Option RowId) : Action (Row × Page) Unit :=
  .update fun s => ({ s.1 with place := place }, s.2)

/-- Write into a slot what the caller's row gives. -/
def setSlot (slot : Nat) (content : Row → Option Row) : Action (Row × Page) Unit :=
  .update fun s => (s.1, { s.2 with slots := s.2.slots.set slot (content s.1) })

def setHeader (change : SlotMap → SlotMap) : Action (Row × Page) Unit :=
  .update fun s => (s.1, { s.2 with header := change s.2.header })

/-- Store the caller's row in the lowest empty slot. -/
def insert : Action (Row × Page) RowId := do
  let (row, p) ← Action.ask fun s : Row × Page => s
  if row.schema.types ≠ p.schema.types then .fail .schemaMismatch
  else
    match p.header.lowestEmpty? with
    | none => .fail (.pageFull p.id)
    | some slot =>
      setPlace (some ⟨p.id, slot⟩)
      setSlot slot some
      setHeader fun m => m.set slot
      return ⟨p.id, slot⟩

/-- Remove one stored copy of the caller's row. -/
def delete : Action (Row × Page) Unit := do
  let (row, p) ← Action.ask fun s : Row × Page => s
  match p.slotOf? row with
  | none => .fail .rowNotFound
  | some slot =>
    setSlot slot fun _ => none
    setHeader fun m => m.clear slot
    setPlace none

variable {row placed : Row} {p q : Page} {e : StorageError}

/-- Storing in place comes to the same as handing back the changed row and page. -/
theorem run_insert_of_ok (h : p.insert row = .ok (q, placed)) :
    ∃ place, placed.place = some place ∧ insert.run (row, p) = (.ok place, placed, q) := by
  obtain ⟨htypes, slot, hslot, rfl, rfl⟩ := insert_eq_ok.1 h
  refine ⟨⟨p.id, slot⟩, rfl, ?_⟩
  simp [insert, Action.run_bind, Action.run_map, htypes, hslot, setPlace, setSlot, setHeader,
    Except.map]

theorem run_insert_of_error (h : p.insert row = .error e) :
    insert.run (row, p) = (.error e, row, p) := by
  rcases insert_eq_error.1 h with ⟨htypes, rfl⟩ | ⟨htypes, hslot, rfl⟩
  · simp [insert, Action.run_bind, htypes]
  · simp [insert, Action.run_bind, htypes, hslot]

theorem run_delete_of_ok (h : p.delete row = .ok (q, placed)) :
    delete.run (row, p) = (.ok (), placed, q) := by
  obtain ⟨slot, hslot, rfl, rfl⟩ := delete_eq_ok.1 h
  simp [delete, Action.run_bind, hslot, setPlace, setSlot, setHeader]

theorem run_delete_of_error (h : p.delete row = .error e) :
    delete.run (row, p) = (.error e, row, p) := by
  obtain ⟨hslot, rfl⟩ := delete_eq_error.1 h
  simp [delete, Action.run_bind, hslot]

end InPlace

/-! ## Pages that are reached -/

/-- A call on a page, with whatever arguments. -/
inductive Edit where
  | insert (row : { row : Row // row.Valid })
  | delete (row : Row)
  | mark (dirty : Bool) (owner? : Option TxnId)
  | snapshot

/-- The page after a call, which may have failed. -/
def edit (p : Page) : Edit → Page
  | .insert row => (InPlace.insert.run (row.val, p)).2.2
  | .delete row => (InPlace.delete.run (row, p)).2.2
  | .mark true owner? => p.markDirty owner?
  | .mark false _ => p.markClean
  | .snapshot => p.snapshot

/-- The pages that come from an image, or from nothing, by calls. -/
inductive Handled (page : PageId) (schema : Schema) (pageSize : Nat) : Page → Prop
  | empty {p : Page} : Page.empty page schema pageSize = .ok p → Handled page schema pageSize p
  | decode {image : Bytes} {p : Page} :
      Page.decode page schema pageSize image = .ok p → Handled page schema pageSize p
  | edit {p : Page} (e : Edit) : Handled page schema pageSize p →
      Handled page schema pageSize (p.edit e)

theorem Handled.foldl {page : PageId} {schema : Schema} {pageSize : Nat} {p : Page}
    (h : Handled page schema pageSize p) (edits : List Edit) :
    Handled page schema pageSize (edits.foldl Page.edit p) := by
  induction edits generalizing p with
  | nil => exact h
  | cons e edits ih => exact ih (h.edit e)

/-- A page that keeps its place, its schema and its layout. -/
structure Akin (p q : Page) : Prop where
  id_eq : q.id = p.id
  schema_eq : q.schema = p.schema
  layout_eq : q.layout = p.layout

variable {p q : Page} {row placed : Row} {page : PageId} {schema : Schema} {pageSize : Nat}

theorem SetAt.akin {slot : Nat} {content : Option Row} (h : p.SetAt slot content q) :
    p.Akin q := by
  rw [h.rest_eq]
  exact ⟨rfl, rfl, rfl⟩

/-- What one call keeps. -/
theorem Sound.edit (h : p.Sound) (e : Edit) : (p.edit e).Sound ∧ p.Akin (p.edit e) := by
  cases e with
  | insert row =>
    cases hq : p.insert row.val with
    | error e =>
      rw [Page.edit, InPlace.run_insert_of_error hq]
      exact ⟨h, rfl, rfl, rfl⟩
    | ok result =>
      obtain ⟨place, -, hrun⟩ := InPlace.run_insert_of_ok hq
      obtain ⟨slot, -, -, hset⟩ := h.setAt_insert hq
      rw [Page.edit, hrun]
      exact ⟨h.insert (Row.valid_iff_allFit.1 row.property) hq, hset.akin⟩
  | delete row =>
    cases hq : p.delete row with
    | error e =>
      rw [Page.edit, InPlace.run_delete_of_error hq]
      exact ⟨h, rfl, rfl, rfl⟩
    | ok result =>
      obtain ⟨slot, -, -, hset⟩ := h.setAt_delete hq
      rw [Page.edit, InPlace.run_delete_of_ok hq]
      exact ⟨h.delete hq, hset.akin⟩
  | mark dirty owner? =>
    cases dirty with
    | true =>
      refine ⟨h.markDirty owner?, ?_⟩
      rw [Page.edit, markDirty_eq]
      exact ⟨rfl, rfl, rfl⟩
    | false => exact ⟨h.markClean, rfl, rfl, rfl⟩
  | snapshot => exact ⟨h.relabel _ _, rfl, rfl, rfl⟩

/-- What any number of calls keeps. -/
theorem Handled.sound (h : Handled page schema pageSize p) :
    p.Sound ∧ p.id = page ∧ p.schema = schema ∧ p.layout.pageSize = pageSize := by
  induction h with
  | empty h | decode h =>
    exact ⟨.of_decode h, id_of_decode h, schema_of_decode h, pageSize_of_decode h⟩
  | edit e _ ih =>
    obtain ⟨hsound, hid, hschema, hsize⟩ := ih
    obtain ⟨hafter, hakin⟩ := hsound.edit e
    exact ⟨hafter, hakin.id_eq.trans hid, hakin.schema_eq.trans hschema,
      (congrArg Layout.pageSize hakin.layout_eq).trans hsize⟩

/-! ## The accounts that a page keeps -/

/-- The map, its count, the slots and the rows of a page agree. -/
structure Agreeing (page : PageId) (schema : Schema) (pageSize : Nat) (p : Page) : Prop where
  id_eq : p.id = page
  schema_eq : p.schema = schema
  layout_eq : Layout.ofSchema schema pageSize = .ok p.layout
  slots_length : p.slots.length = p.slotCount
  header_slots : p.header.slots = p.slotCount
  bits_length : p.header.bits.length = SlotMap.byteCount p.slotCount
  isSet_iff : ∀ i, p.header.isSet i = true ↔ ∃ r, p.row? i = some r
  ones_eq : p.header.ones = p.header.used
  rows_length : p.rows.length = p.header.used
  used_le : p.header.used ≤ p.slotCount
  emptySlots_eq : p.emptySlots + p.header.used = p.slotCount
  tail_clear : ∀ i, p.slotCount ≤ i → SlotMap.bitAt p.header.bits i = false
  types_eq : ∀ i r, p.row? i = some r → r.schema.types = schema.types
  valid : ∀ i r, p.row? i = some r → r.Valid
  place_eq : ∀ i r, p.row? i = some r → r.place = some ⟨page, i⟩
  isDirty : ∀ txn, p.dirtier? = some txn → p.isDirty = true

/-- The count kept in the map of a sound page is the number of its rows. -/
theorem Sound.length_rows (h : p.Sound) : p.rows.length = p.header.used := by
  have hflags := h.flags_eq
  rw [SlotMap.flags_eq h.header.length_eq] at hflags
  calc p.rows.length = p.slots.countP Option.isSome := List.length_filterMap_eq_countP
    _ = (p.slots.map Option.isSome).count true := by simp [List.count, Function.comp_def]
    _ = ((List.range p.header.slots).map p.header.isSet).count true := by rw [hflags]
    _ = (List.range p.header.slots).countP p.header.isSet := by
      simp [List.count, Function.comp_def]
    _ = p.header.used := (SlotMap.used_eq h.header).symm

theorem Sound.used_le (h : p.Sound) : p.header.used ≤ p.slotCount := by
  rw [← h.length_rows, slotCount, ← h.length_eq]
  exact List.length_filterMap_le _ _

/-- On a page that was made in any way and changed by any calls, all accounts of its slots agree. -/
theorem Handled.accounts_agree (h : Handled page schema pageSize p) :
    p.Agreeing page schema pageSize := by
  obtain ⟨hsound, rfl, rfl, rfl⟩ := h.sound
  have hused := hsound.used_le
  refine
    { id_eq := rfl
      schema_eq := rfl
      layout_eq := hsound.layout_eq
      slots_length := hsound.length_eq
      header_slots := hsound.slots_eq
      bits_length := ?_
      isSet_iff := ?_
      ones_eq := hsound.header.used_eq_ones.symm
      rows_length := hsound.length_rows
      used_le := hused
      emptySlots_eq := Nat.sub_add_cancel hused
      tail_clear := ?_
      types_eq := fun i r hr => (hsound.housed i r hr).types_eq
      valid := ?_
      place_eq := fun i r hr => (hsound.housed i r hr).place_eq
      isDirty := ?_ }
  · rw [hsound.header.length_eq, hsound.slots_eq]
    rfl
  · intro i
    rw [hsound.isSet_eq, Option.isSome_iff_exists]
  · intro i hi
    exact hsound.header.tail_clear i (hsound.slots_eq ▸ hi)
  · intro i r hr
    have hhoused := hsound.housed i r hr
    exact Row.valid_iff_allFit.2 (hhoused.types_eq ▸ hhoused.fits)
  · intro txn howner
    cases hstatus : p.status with
    | clean => simp [dirtier?, hstatus] at howner
    | dirty owner? => simp [isDirty, hstatus]

/-- An image in which all bits past the second slot are set, and bytes stand in the empty slot.
Five calls are made of the page, of which two fail. -/
theorem Handled.accounts_agree_stray_bits :
    ∃ (start p : Page) (six seven : { row : Row // row.Valid }),
      Page.decode ⟨7, 0⟩ ⟨[⟨.int, none⟩]⟩ 9 [0xFD, 0, 0, 0, 5, 9, 9, 9, 9] = .ok start ∧
      six.val = ⟨⟨[⟨.int, some "n"⟩]⟩, [.int 6], none⟩ ∧
      seven.val = ⟨⟨[⟨.int, none⟩]⟩, [.int 7], none⟩ ∧
      p = [.insert six, .insert seven, .mark true (some ⟨3⟩),
        .delete ⟨⟨[⟨.int, none⟩]⟩, [.int 5], some ⟨⟨7, 0⟩, 1⟩⟩,
        .delete ⟨⟨[⟨.text 4, none⟩]⟩, [.text ""], none⟩].foldl Page.edit start ∧
      p.rows.map Row.values = [[.int 6]] ∧ p.header.bits = [2] ∧ p.dirtier? = some ⟨3⟩ ∧
      p.Agreeing ⟨7, 0⟩ ⟨[⟨.int, none⟩]⟩ 9 := by
  obtain ⟨start, hstart⟩ : ∃ start, Page.decode ⟨7, 0⟩ ⟨[⟨.int, none⟩]⟩ 9
    [0xFD, 0, 0, 0, 5, 9, 9, 9, 9] = .ok start := ⟨_, rfl⟩
  refine ⟨start, _,
    ⟨_, Row.valid_of_ofValues (show Row.ofValues ⟨[⟨.int, some "n"⟩]⟩ [.int 6] = _ from rfl)⟩,
    ⟨_, Row.valid_of_ofValues (show Row.ofValues ⟨[⟨.int, none⟩]⟩ [.int 7] = _ from rfl)⟩, hstart,
    rfl, rfl, rfl, ?_, ?_, ?_, Handled.accounts_agree ((Handled.decode hstart).foldl _)⟩
  all_goals
    cases hstart
    rfl

/-! ## One slot at a time -/

/-- What storing a row in a page comes to, by the answer, the caller's row and the page after it. -/
structure Inserting (p : Page) (row : Row) (answer : Except StorageError RowId) (after : Row)
    (q : Page) : Prop where
  mismatch_iff : answer = .error .schemaMismatch ↔ row.schema.types ≠ p.schema.types
  full_iff : answer = .error (.pageFull p.id) ↔ row.schema.types = p.schema.types ∧ p.Full
  failed : ∀ e, answer = .error e →
    (e = .schemaMismatch ∨ e = .pageFull p.id) ∧ after = row ∧ q = p
  stored : ∀ place, answer = .ok place → ∃ slot, p.LowestEmpty slot ∧ place = ⟨p.id, slot⟩ ∧
    after = { row with place := some place } ∧ p.SetAt slot (some after) q
  undone : ∀ place, answer = .ok place → ∀ twin : Row, twin.Same row → twin.place = some place →
    InPlace.delete.run (twin, q) = (.ok (), { twin with place := none }, p)

/-- What removing a row from a page comes to. -/
structure Deleting (p : Page) (row : Row) (answer : Except StorageError Unit) (after : Row)
    (q : Page) : Prop where
  notFound_iff : answer = .error .rowNotFound ↔ ∀ i, ¬ p.HoldsAt row i
  failed : ∀ e, answer = .error e → e = .rowNotFound ∧ after = row ∧ q = p
  removed : answer = .ok () → ∃ slot, p.Gives row slot ∧
    after = { row with place := none } ∧ p.SetAt slot none q

theorem Sound.inserting (h : p.Sound) (row : Row) :
    p.Inserting row (InPlace.insert.run (row, p)).1 (InPlace.insert.run (row, p)).2.1
      (InPlace.insert.run (row, p)).2.2 := by
  cases hq : p.insert row with
  | error e =>
    rw [InPlace.run_insert_of_error hq]
    rcases insert_eq_error.1 hq with ⟨hne, rfl⟩ | ⟨heq, hslot, rfl⟩
    · refine ⟨iff_of_true rfl hne, iff_of_false nofun fun hfull => hne hfull.1, ?_, nofun, nofun⟩
      rintro _ ⟨⟩
      exact ⟨.inl rfl, rfl, rfl⟩
    · have hfull := h.full_of_lowestEmpty? hslot
      refine ⟨iff_of_false nofun fun hne => hne heq, iff_of_true rfl ⟨heq, hfull⟩, ?_, nofun,
        nofun⟩
      rintro _ ⟨⟩
      exact ⟨.inr rfl, rfl, rfl⟩
  | ok result =>
    obtain ⟨q, placed⟩ := result
    obtain ⟨place, hplace, hrun⟩ := InPlace.run_insert_of_ok hq
    obtain ⟨htypes, -⟩ := insert_eq_ok.1 hq
    obtain ⟨slot, hslot, rfl, hset⟩ := h.setAt_insert hq
    obtain rfl := Option.some.inj hplace
    have hlowest := h.lowestEmpty_of_lowestEmpty? hslot
    rw [hrun]
    refine ⟨iff_of_false nofun fun hne => hne htypes,
      iff_of_false nofun fun hfull => hlowest.not_full hfull.2, nofun, ?_, ?_⟩
    · rintro _ ⟨⟩
      exact ⟨slot, hlowest, rfl, rfl, hset⟩
    · rintro _ ⟨⟩ twin hsame htwin
      exact InPlace.run_delete_of_ok (h.delete_insert hq hsame htwin)

theorem Sound.deleting (h : p.Sound) (row : Row) :
    p.Deleting row (InPlace.delete.run (row, p)).1 (InPlace.delete.run (row, p)).2.1
      (InPlace.delete.run (row, p)).2.2 := by
  cases hq : p.delete row with
  | error e =>
    obtain ⟨hslot, rfl⟩ := delete_eq_error.1 hq
    rw [InPlace.run_delete_of_error hq]
    refine ⟨iff_of_true rfl (slotOf?_eq_none.1 hslot), ?_, nofun⟩
    rintro _ ⟨⟩
    exact ⟨rfl, rfl, rfl⟩
  | ok result =>
    obtain ⟨q, removed⟩ := result
    obtain ⟨slot, hslot, rfl, hset⟩ := h.setAt_delete hq
    have hgives := gives_of_slotOf? hslot
    rw [InPlace.run_delete_of_ok hq]
    exact ⟨iff_of_false nofun fun hno => hno slot hgives.holdsAt, nofun,
      fun _ => ⟨slot, hgives, rfl, hset⟩⟩

/-- Storing and removing a row change one slot, the right one, or nothing at all; and removing a
row from the place that it was just given leaves the page as it was. -/
theorem Handled.changes_one_slot (h : Handled page schema pageSize p) (row after : Row) (q : Page) :
    (∀ answer, InPlace.insert.run (row, p) = (answer, after, q) →
        p.Inserting row answer after q) ∧
      ∀ answer, InPlace.delete.run (row, p) = (answer, after, q) →
        p.Deleting row answer after q := by
  obtain ⟨hsound, -⟩ := h.sound
  constructor
  · intro answer hrun
    simpa [hrun] using hsound.inserting row
  · intro answer hrun
    simpa [hrun] using hsound.deleting row

/-- Three slots, of which the first and the last hold the row. A copy of it goes between them, and
the place it is given leads to it among its equals; without that place the first copy would go. -/
theorem Handled.changes_one_slot_duplicates :
    ∃ (p q : Page) (five placed : Row) (image : Bytes),
      five = ⟨⟨[⟨.int, none⟩]⟩, [.int 5], none⟩ ∧
      image = [0xFD, 0, 0, 0, 5, 9, 9, 9, 9, 0, 0, 0, 5, 9] ∧
      Page.decode ⟨7, 0⟩ ⟨[⟨.int, none⟩]⟩ 14 image = .ok p ∧
      InPlace.insert.run (five, p) = (.ok ⟨⟨7, 0⟩, 1⟩, placed, q) ∧
      InPlace.delete.run (placed, q) = (.ok (), five, p) ∧
      (InPlace.delete.run (five, q)).2.2.cells = [none, some [.int 5], some [.int 5]] ∧
      p.Inserting five (.ok ⟨⟨7, 0⟩, 1⟩) placed q ∧ q.Deleting placed (.ok ()) five p := by
  obtain ⟨p, hp⟩ : ∃ p, Page.decode ⟨7, 0⟩ ⟨[⟨.int, none⟩]⟩ 14
    [0xFD, 0, 0, 0, 5, 9, 9, 9, 9, 0, 0, 0, 5, 9] = .ok p := ⟨_, rfl⟩
  let five : Row := ⟨⟨[⟨.int, none⟩]⟩, [.int 5], none⟩
  obtain ⟨placed, q, hq⟩ : ∃ placed q,
      InPlace.insert.run (five, p) = (.ok ⟨⟨7, 0⟩, 1⟩, placed, q) := by
    cases hp
    exact ⟨_, _, rfl⟩
  have hhandled : Handled ⟨7, 0⟩ ⟨[⟨.int, none⟩]⟩ 14 p := .decode hp
  have hfive : five.Valid :=
    Row.valid_of_ofValues (show Row.ofValues ⟨[⟨.int, none⟩]⟩ [.int 5] = _ from rfl)
  have hafter : Handled ⟨7, 0⟩ ⟨[⟨.int, none⟩]⟩ 14 q := by
    simpa [Page.edit, hq] using hhandled.edit (.insert ⟨five, hfive⟩)
  have hinserting := (hhandled.changes_one_slot five placed q).1 _ hq
  obtain ⟨-, -, -, rfl, -⟩ := hinserting.stored _ rfl
  have hundone := hinserting.undone _ rfl { five with place := some ⟨⟨7, 0⟩, 1⟩ } ⟨rfl, rfl⟩ rfl
  refine ⟨p, q, five, _, _, rfl, rfl, hp, hq, hundone, ?_, hinserting,
    (hafter.changes_one_slot _ five p).2 _ hundone⟩
  cases hp
  cases hq
  rfl

end Page

end RowStore
