import RowStore.Proofs.Page.Sound

/-!
# Reading back what a page writes

The image of a sound page has exactly the bytes of a page, and decoding it yields the page again,
clean, with every row bound to the schema of the page. Rows may have been inserted under other
column names, so the schemas of the rows are the one thing that can differ.
-/

namespace RowStore

theorem Row.AllFit.countable {ts : List ColumnType} {vs : List Value} (h : AllFit ts vs)
    (hw : ∀ t ∈ ts, t.width < 0x100000000) : ∀ v ∈ vs, v.Countable := by
  induction h with
  | nil => simp
  | @cons t v ts vs hv _ ih =>
    simp only [List.forall_mem_cons] at hw ⊢
    refine ⟨?_, ih hw.2⟩
    match t, v, hv with
    | .int, .int _, _ => trivial
    | .text w, .text s, hv =>
      have hv : (Utf8.encode s).length ≤ w - 4 := hv
      have hw : w < 0x100000000 := hw.1
      show (Utf8.encode s).length < 0x100000000
      omega

/-- A row that could be made has a fitting value in each column. -/
theorem Row.valid_of_ofValues {schema : Schema} {values : List Value} {r : Row}
    (h : Row.ofValues schema values = .ok r) : r.Valid := by
  obtain ⟨hfits, rfl⟩ := Row.ofValues_eq_ok_iff.1 h
  exact Row.valid_iff_allFit.2 hfits

instance (s : Schema) : Decidable s.Valid :=
  decidable_of_iff (s.columns ≠ [] ∧ ∀ t ∈ s.types, Schema.TypeValid t)
    ⟨fun h => ⟨h.1, h.2⟩, fun h => ⟨h.1, h.2⟩⟩

/-- A schema whose rows can be told from their bytes. -/
structure Schema.Storable (s : Schema) : Prop where
  typeValid : ∀ t ∈ s.types, TypeValid t
  width_lt : ∀ t ∈ s.types, t.width < 0x100000000

/-- The row under another schema. -/
def Row.under (schema : Schema) (r : Row) : Row := { r with schema := schema }

namespace Row

variable {page : PageId} {schema : Schema} {slot : Nat} {r : Row}

theorem Housed.length_encode (h : r.Housed page schema slot) :
    r.encode.length = schema.rowSize := by
  have hfits : AllFit r.schema.types r.values := h.types_eq ▸ h.fits
  rw [Row.length_encode hfits, Schema.rowSize, h.types_eq, Schema.rowSize]

theorem encode_under (h : r.schema.types = schema.types) : (r.under schema).encode = r.encode := by
  simp only [under, encode, h]

end Row

namespace Page

variable {p : Page} {page : PageId} {schema : Schema} {layout : Layout}

theorem length_encode (p : Page) : p.encode.length = p.layout.pageSize := Bytes.length_fit _ _

theorem decodeRow_encode {slot : Nat} {r : Row} (hs : schema.Storable)
    (h : r.Housed page schema slot) :
    decodeRow page schema slot r.encode = .ok (r.under schema) := by
  have hvalues := Row.decodeValues_encode_append hs.typeValid h.fits
    (h.fits.countable hs.width_lt) []
  rw [List.append_nil, ← h.types_eq] at hvalues
  have hrow : Row.decode schema r.encode = .ok ⟨schema, r.values, none⟩ := by
    simp only [Row.decode, ← h.types_eq]
    rw [Row.encode, hvalues]
    rfl
  simp [decodeRow, hrow, Row.under, h.place_eq, bind, Except.bind, pure, Except.pure]

theorem length_slotImage {slot : Nat} {content : Option Row}
    (hrow : layout.rowSize = schema.rowSize)
    (h : ∀ r, content = some r → r.Housed page schema slot) :
    (slotImage layout content).length = layout.rowSize := by
  cases content with
  | none => exact Bytes.length_zeros _
  | some r => exact (h r rfl).length_encode.trans hrow.symm

/-- The images of slots, one behind the other, read back as the slots. -/
theorem decodeSlots_images {slots : List (Option Row)} {slot length : Nat} {rest : Bytes}
    (hs : schema.Storable) (hrow : layout.rowSize = schema.rowSize)
    (h : ∀ (k : Nat) (r : Row), slots[k]? = some (some r) → r.Housed page schema (slot + k)) :
    decodeSlots page schema layout length slot (slots.map Option.isSome)
        (slots.flatMap (slotImage layout) ++ rest) =
      .ok (slots.map (Option.map (Row.under schema))) := by
  induction slots generalizing slot with
  | nil => rfl
  | cons content slots ih =>
    have hfirst : ∀ r, content = some r → r.Housed page schema slot := fun r hr =>
      h 0 r (by simp [hr])
    have hlen := length_slotImage hrow hfirst
    have hothers : decodeSlots page schema layout length (slot + 1) (slots.map Option.isSome)
          (slots.flatMap (slotImage layout) ++ rest) =
        .ok (slots.map (Option.map (Row.under schema))) := ih fun k r hk => by
      have := h (k + 1) r (by simpa using hk)
      rwa [← Nat.add_assoc, Nat.add_right_comm] at this
    have hwindow (tail : Bytes) : Bytes.window? (slotImage layout content ++ tail) 0
        layout.rowSize = some (slotImage layout content) := by
      simp [Bytes.window?, ← hlen]
    simp only [List.map_cons, List.flatMap_cons, List.append_assoc, decodeSlots, hwindow,
      List.drop_left' hlen, hothers]
    cases content with
    | none => rfl
    | some r =>
      have : decodeRow page schema slot (slotImage layout (some r)) = .ok (r.under schema) :=
        decodeRow_encode hs (hfirst r rfl)
      simp [this, Functor.map, Except.map, bind, Except.bind, pure, Except.pure]

theorem length_images {slots : List (Option Row)} {slot : Nat}
    (hrow : layout.rowSize = schema.rowSize)
    (h : ∀ (k : Nat) (r : Row), slots[k]? = some (some r) → r.Housed page schema (slot + k)) :
    (slots.flatMap (slotImage layout)).length = slots.length * layout.rowSize := by
  induction slots generalizing slot with
  | nil => simp
  | cons content slots ih =>
    have hfirst := length_slotImage hrow fun r (hr : content = some r) => h 0 r (by simp [hr])
    have hothers := ih fun k r hk => by
      have := h (k + 1) r (by simpa using hk)
      rwa [← Nat.add_assoc, Nat.add_right_comm] at this
    rw [List.flatMap_cons, List.length_append, hfirst, hothers, List.length_cons, Nat.succ_mul,
      Nat.add_comm]

namespace Sound

theorem layout_def (h : p.Sound) : p.layout = ⟨p.layout.pageSize, p.schema.rowSize,
    Layout.slotsFor p.schema.rowSize p.layout.pageSize⟩ := (layout_of_ofSchema h.layout_eq).1

theorem rowSize_eq (h : p.Sound) : p.layout.rowSize = p.schema.rowSize :=
  congrArg Layout.rowSize h.layout_def

theorem housed_at (h : p.Sound) (k : Nat) (r : Row) (hr : p.slots[k]? = some (some r)) :
    r.Housed p.id p.schema (0 + k) := by
  rw [Nat.zero_add]
  exact h.housed k r (row?_eq_some.2 hr)

theorem extent_le (h : p.Sound) :
    p.layout.headerSize + p.layout.slots * p.layout.rowSize ≤ p.layout.pageSize := by
  rw [h.layout_def]
  exact Layout.extent_slotsFor_le _ _

theorem rowSize_lt (h : p.Sound) : p.schema.rowSize < p.layout.pageSize := by
  have hpos := (layout_of_ofSchema h.layout_eq).2
  rw [h.layout_def] at hpos
  have hle : p.schema.rowSize * 8 + 1 ≤ p.layout.pageSize * 8 := (Nat.div_pos_iff.1 hpos).2
  omega

/-- A page of fewer than 2^32 bytes has only rows that can be told from their bytes. -/
theorem storable (h : p.Sound) (hs : p.schema.Valid) (hsize : p.layout.pageSize < 0x100000000) :
    p.schema.Storable := by
  refine ⟨hs.typeValid, ?_⟩
  intro t ht
  have := Schema.width_le_rowSize ht
  have := h.rowSize_lt
  omega

/-- A sound page is written as its map, its slots, and zeros. -/
theorem encode_eq (h : p.Sound) : ∃ n, p.encode =
    p.header.bits ++ (p.slots.flatMap (slotImage p.layout) ++ Bytes.zeros n) := by
  have hbits : p.header.bits.length = p.layout.headerSize := by
    rw [h.header.length_eq, h.slots_eq]; rfl
  have himages := length_images h.rowSize_eq h.housed_at
  have hle := h.extent_le
  rw [h.length_eq] at himages
  rw [encode, Bytes.fit_of_le (by simp only [List.length_append]; omega), List.append_assoc]
  exact ⟨_, rfl⟩

theorem flags_eq (h : p.Sound) : p.header.flags = p.slots.map Option.isSome := by
  rw [SlotMap.flags_eq h.header.length_eq, h.slots_eq, ← h.length_eq]
  refine List.ext_getElem (by simp) fun i hi _ => ?_
  have hlt : i < p.slots.length := by simpa using hi
  simp [h.isSet_eq, row?, hlt]

end Sound

/-- The page as it comes back from its image. -/
def reread (p : Page) : Page :=
  { p with
    slots := p.slots.map (Option.map (Row.under p.schema))
    status := .clean
    before := p.encode }

theorem Sound.encode_under (h : p.Sound) :
    Page.encode { p with slots := p.slots.map (Option.map (Row.under p.schema)) } = p.encode := by
  have himages : (p.slots.map (Option.map (Row.under p.schema))).flatMap (slotImage p.layout) =
      p.slots.flatMap (slotImage p.layout) := by
    rw [List.flatMap_map]
    refine congrArg List.flatten (List.map_congr_left fun content hc => ?_)
    cases content with
    | none => rfl
    | some r =>
      obtain ⟨k, hk⟩ := List.getElem?_of_mem hc
      exact Row.encode_under (h.housed_at k r hk).types_eq
  rw [Page.encode, himages]
  rfl

/-- Decoding the image of a sound page gives the page back. -/
theorem decode_encode (h : p.Sound) (hs : p.schema.Valid)
    (hsize : p.layout.pageSize < 0x100000000) :
    decode p.id p.schema p.layout.pageSize p.encode = .ok p.reread := by
  obtain ⟨n, hencode⟩ := h.encode_eq
  have hbits : p.header.bits.length = p.layout.headerSize := by
    rw [h.header.length_eq, h.slots_eq]; rfl
  refine decode_eq_ok.2 ⟨p.layout, p.header, p.slots.map (Option.map (Row.under p.schema)),
    h.layout_eq, ?_, ?_, ?_⟩
  · rw [hencode, ← h.slots_eq]
    exact SlotMap.read?_bits_append h.header _
  · rw [h.flags_eq, hencode, List.drop_left' hbits]
    exact decodeSlots_images (h.storable hs hsize) h.rowSize_eq h.housed_at
  · rw [snapshot, reread, ← h.encode_under]
    rfl

theorem row?_reread (p : Page) (i : Nat) :
    p.reread.row? i = (p.row? i).map (Row.under p.schema) := by
  simp only [row?, reread, List.getElem?_map]
  cases p.slots[i]? with
  | none => rfl
  | some content => rfl

/-- The pages that come from an image, or from nothing, by inserting and deleting rows. An
operation that fails leaves the page as it is. -/
inductive Built (page : PageId) (schema : Schema) (pageSize : Nat) : Page → Prop
  | empty {p : Page} : Page.empty page schema pageSize = .ok p → Built page schema pageSize p
  | decode {image : Bytes} {p : Page} :
      Page.decode page schema pageSize image = .ok p → Built page schema pageSize p
  | insert {p q : Page} {r placed : Row} : Built page schema pageSize p → r.Valid →
      p.insert r = .ok (q, placed) → Built page schema pageSize q
  | delete {p q : Page} {r removed : Row} : Built page schema pageSize p →
      p.delete r = .ok (q, removed) → Built page schema pageSize q

theorem Built.sound {pageSize : Nat} (h : Built page schema pageSize p) :
    p.Sound ∧ p.id = page ∧ p.schema = schema ∧ p.layout.pageSize = pageSize := by
  induction h with
  | empty h | decode h =>
    exact ⟨.of_decode h, id_of_decode h, schema_of_decode h, pageSize_of_decode h⟩
  | insert _ hr hq ih =>
    obtain ⟨hsound, heq⟩ := ih
    refine ⟨hsound.insert (Row.valid_iff_allFit.1 hr) hq, ?_⟩
    obtain ⟨-, slot, -, -, rfl⟩ := insert_eq_ok.1 hq
    exact heq
  | delete _ hq ih =>
    obtain ⟨hsound, heq⟩ := ih
    refine ⟨hsound.delete hq, ?_⟩
    obtain ⟨slot, -, -, rfl⟩ := delete_eq_ok.1 hq
    exact heq

/-- The image of a page has exactly the size of a page and reads back as a clean page with the
same map, the same rows at their places, and the same image. -/
theorem decode_encode_of_built {pageSize : Nat} (hs : schema.Valid)
    (hsize : pageSize < 0x100000000) (h : Built page schema pageSize p) :
    p.encode.length = pageSize ∧
      ∃ q, decode page schema pageSize p.encode = .ok q ∧ q.header = p.header ∧
        (∀ i, (q.row? i).isSome = (p.row? i).isSome) ∧
        (∀ i r, q.row? i = some r →
          r.place = some ⟨page, i⟩ ∧ ∃ s, p.row? i = some s ∧ r.Same s) ∧
        q.isDirty = false ∧ q.encode = p.encode := by
  obtain ⟨hsound, rfl, rfl, rfl⟩ := h.sound
  refine ⟨Bytes.length_fit _ _, p.reread, decode_encode hsound hs hsize, rfl, ?_,
    ?_, rfl, ?_⟩
  · intro i
    rw [row?_reread, Option.isSome_map]
  · intro i r hr
    rw [row?_reread] at hr
    obtain ⟨s, hs, rfl⟩ := Option.map_eq_some_iff.1 hr
    have hhoused := hsound.housed i s hs
    exact ⟨hhoused.place_eq, s, hs, hhoused.types_eq.symm, rfl⟩
  · exact hsound.encode_under

/-- A row of unnamed columns, in a page of two slots and two bytes to spare. -/
theorem decode_encode_unnamed_row :
    ∃ p, Built ⟨7, 0⟩ ⟨[⟨.int, some "id"⟩, ⟨.text 8, some "name"⟩]⟩ 27 p ∧
      p.row? 0 =
        some ⟨⟨[⟨.int, none⟩, ⟨.text 8, none⟩]⟩, [.int 5, .text "ann"], some ⟨⟨7, 0⟩, 0⟩⟩ ∧
      p.encode.length = 27 ∧
      ∃ q, decode ⟨7, 0⟩ ⟨[⟨.int, some "id"⟩, ⟨.text 8, some "name"⟩]⟩ 27 p.encode = .ok q ∧
        q.header = p.header ∧ (∀ i, (q.row? i).isSome = (p.row? i).isSome) ∧
        (∀ i r, q.row? i = some r →
          r.place = some ⟨⟨7, 0⟩, i⟩ ∧ ∃ s, p.row? i = some s ∧ r.Same s) ∧
        q.isDirty = false ∧ q.encode = p.encode := by
  obtain ⟨blank, hblank⟩ : ∃ p, Page.empty ⟨7, 0⟩
      ⟨[⟨.int, some "id"⟩, ⟨.text 8, some "name"⟩]⟩ 27 = .ok p := ⟨_, rfl⟩
  obtain ⟨row, hrow⟩ : ∃ r, Row.ofValues ⟨[⟨.int, none⟩, ⟨.text 8, none⟩]⟩
      [.int 5, .text "ann"] = .ok r := ⟨_, rfl⟩
  obtain ⟨⟨p, placed⟩, hp⟩ : ∃ q, blank.insert row = .ok q := by
    cases hblank
    cases hrow
    exact ⟨_, rfl⟩
  have hbuilt := (Built.empty hblank).insert (Row.valid_of_ofValues hrow) hp
  refine ⟨p, hbuilt, ?_, decode_encode_of_built (by decide) (by decide) hbuilt⟩
  cases hblank
  cases hrow
  cases hp
  rfl

end Page

end RowStore
