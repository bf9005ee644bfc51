import RowStore.Proofs.Page.Blank
import RowStore.TableFile

/-!
# A file as an array of pages

Writing inside a file changes one window of it and leaves every window beside it as it was, so a
page that is stored changes only itself. A page appended at the end leaves all pages before it
alone, as long as its position has 32 bits.
-/

namespace RowStore

namespace Bytes

variable {bytes other data : Bytes} {start count : Nat}

theorem window?_of_le (h : start + count ≤ bytes.length) :
    window? bytes start count = some ((bytes.drop start).take count) := by
  have : ((bytes.drop start).take count).length = count := by simp; omega
  simp [window?, this]

theorem le_of_window? {found : Bytes} (hc : 0 < count)
    (h : window? bytes start count = some found) : start + count ≤ bytes.length := by
  simp only [window?] at h
  split at h
  · next hlen =>
    simp only [List.length_take, List.length_drop] at hlen
    omega
  · cases h

/-- A window is told by the bytes that stand in it. -/
theorem window?_congr (h : ∀ i, start ≤ i → i < start + count → bytes[i]? = other[i]?) :
    window? bytes start count = window? other start count := by
  have : (bytes.drop start).take count = (other.drop start).take count := by
    refine List.ext_getElem? fun i => ?_
    simp only [List.getElem?_take, List.getElem?_drop]
    split
    · exact h _ (by omega) (by omega)
    · rfl
  simp only [window?, this]

theorem window?_eq_none (hc : 0 < count) (h : bytes.length < start + count) :
    window? bytes start count = none := by
  cases hw : window? bytes start count with
  | none => rfl
  | some found => exact absurd (le_of_window? hc hw) (Nat.not_le_of_lt h)

theorem getElem?_overwrite (h : start ≤ bytes.length) (i : Nat) :
    (overwrite bytes start data)[i]? =
      if i < start then bytes[i]?
      else if i < start + data.length then data[i - start]? else bytes[i]? := by
  have hfit : fit start bytes = bytes.take start := by
    simp [fit, zeros, Nat.sub_eq_zero_of_le h]
  have hlen : (bytes.take start).length = start := by simp [h]
  unfold overwrite
  split
  · next hnil =>
    subst hnil
    simp
    omega
  · rw [hfit, List.append_assoc]
    by_cases hi : i < start
    · rw [List.getElem?_append_left (by omega), List.getElem?_take, if_pos hi, if_pos hi]
    · rw [List.getElem?_append_right (by omega), hlen, if_neg hi]
      by_cases hd : i < start + data.length
      · rw [List.getElem?_append_left (by omega), if_pos hd]
      · rw [List.getElem?_append_right (by omega), List.getElem?_drop, if_neg hd]
        congr 1
        omega

theorem length_overwrite (h : start + data.length ≤ bytes.length) :
    (overwrite bytes start data).length = bytes.length := by
  unfold overwrite
  split
  · rfl
  · simp only [List.length_append, length_fit, List.length_drop]
    omega

/-- Writing never makes a file shorter. -/
theorem le_length_overwrite (bytes : Bytes) (start : Nat) (data : Bytes) :
    bytes.length ≤ (overwrite bytes start data).length := by
  unfold overwrite
  split
  · exact Nat.le_refl _
  · simp only [List.length_append, length_fit, List.length_drop]
    omega

theorem overwrite_end (bytes data : Bytes) : overwrite bytes bytes.length data = bytes ++ data := by
  unfold overwrite
  split
  · next hnil => simp [hnil]
  · simp [fit_of_length_eq rfl]

theorem window?_overwrite_self (bytes : Bytes) (start : Nat) (data : Bytes) :
    window? (overwrite bytes start data) start data.length = some data := by
  unfold overwrite
  split
  · next hnil => simp [hnil, window?]
  · simp [window?, List.append_assoc]

theorem window?_overwrite_of_disjoint {s c : Nat} (h : start ≤ bytes.length)
    (hd : s + c ≤ start ∨ start + data.length ≤ s) :
    window? (overwrite bytes start data) s c = window? bytes s c :=
  window?_congr fun i hi hlt => by
    rw [getElem?_overwrite h]
    rcases hd with hd | hd
    · rw [if_pos (by omega)]
    · rw [if_neg (by omega), if_neg (by omega)]

end Bytes

namespace Volume

@[simp] theorem read_write (v : Volume) (path other : Path) (bytes : Bytes) :
    (v.write path bytes).read other = if other = path then bytes else v.read other := by
  simp only [read, write, Keyed.get?_put]
  split <;> rfl

theorem read_writeAt_self (v : Volume) (path : Path) (start : Nat) (data : Bytes) :
    (v.writeAt path start data).read path = (v.read path).overwrite start data := by
  simp [writeAt]

theorem read_writeAt_of_ne (v : Volume) {path other : Path} (h : other ≠ path) (start : Nat)
    (data : Bytes) : (v.writeAt path start data).read other = v.read other := by
  simp [writeAt, h]

theorem length_le_writeAt (v : Volume) (path : Path) (start : Nat) (data : Bytes) (other : Path) :
    v.length other ≤ (v.writeAt path start data).length other := by
  simp only [length, writeAt, read_write]
  split
  · next heq =>
    subst heq
    exact Bytes.le_length_overwrite _ _ _
  · exact Nat.le_refl _

/-- A file that is created has no bytes yet. -/
theorem read_of_openFile {v w : Volume} {folder path : Path} {name : String}
    (h : v.openFile folder name = .ok (path, w)) (other : Path) : w.read other = v.read other := by
  simp only [openFile] at h
  split at h
  · cases h
  · split at h
    · cases h
    · split at h
      · cases h
      · obtain ⟨rfl, rfl⟩ := Prod.mk.inj (Except.ok.inj h)
        split
        · rfl
        · next habsent =>
          rw [read_write]
          split
          · next heq =>
            subst heq
            have : v.files.get? other = none := by simpa [Keyed.contains] using habsent
            simp [read, this]
          · rfl

theorem folders_of_openFile {v w : Volume} {folder path : Path} {name : String}
    (h : v.openFile folder name = .ok (path, w)) : w.folders = v.folders := by
  simp only [openFile] at h
  split at h
  · cases h
  · split at h
    · cases h
    · split at h
      · cases h
      · obtain ⟨-, rfl⟩ := Prod.mk.inj (Except.ok.inj h)
        split <;> rfl

end Volume

namespace PageId

theorem offset_disjoint {page q : PageId} {n : Nat} (h : page.number.toNat ≠ q.number.toNat) :
    page.offset n + n ≤ q.offset n ∨ q.offset n + n ≤ page.offset n := by
  simp only [offset, ← Nat.succ_mul]
  rcases Nat.lt_or_gt_of_ne h with hlt | hlt
  · exact .inl (Nat.mul_le_mul_right _ hlt)
  · exact .inr (Nat.mul_le_mul_right _ hlt)

theorem number_ne {page q : PageId} (ht : page.table = q.table) (h : page ≠ q) :
    page.number.toNat ≠ q.number.toNat := by
  refine fun hn => h ?_
  obtain ⟨table, number⟩ := page
  obtain ⟨table', number'⟩ := q
  simp only [PageId.mk.injEq] at ht ⊢
  exact ⟨ht, UInt32.toNat.inj hn⟩

end PageId

/-- A page that a table file can store. -/
structure Page.BelongsTo (p : Page) (f : TableFile) : Prop where
  sound : p.Sound
  table_eq : p.id.table = f.id
  schema_eq : p.schema = f.schema
  pageSize_eq : p.layout.pageSize = f.pageSize

namespace TableFile

variable {f : TableFile} {v w : Volume} {page : PageId} {p : Page}

/-- The bytes of a page in its file, if they are all there. -/
def image? (f : TableFile) (v : Volume) (page : PageId) : Option Bytes :=
  Bytes.window? (v.read f.path) (page.offset f.pageSize) f.pageSize

theorem readPage_of_image {image : Bytes} (ht : page.table = f.id)
    (h : f.image? v page = some image) :
    f.readPage v page = Page.decode page f.schema f.pageSize image := by
  have h : Bytes.window? (v.read f.path) (page.offset f.pageSize) f.pageSize = some image := h
  simp [readPage, checkOwner, Volume.readAt, ht, h, bind, Except.bind]

theorem readPage_of_ne (h : page.table ≠ f.id) :
    f.readPage v page = .error (.invalidOperation (.foreignPage page f.id)) := by
  simp [readPage, checkOwner, h, bind, Except.bind]

theorem readPage_eq_ok :
    f.readPage v page = .ok p ↔ page.table = f.id ∧
      ∃ image, f.image? v page = some image ∧
        Page.decode page f.schema f.pageSize image = .ok p := by
  by_cases ht : page.table = f.id
  · cases hw : f.image? v page with
    | none =>
      have hw : Bytes.window? (v.read f.path) (page.offset f.pageSize) f.pageSize = none := hw
      simp [readPage, checkOwner, Volume.readAt, ht, hw, bind, Except.bind]
    | some image =>
      simp [readPage_of_image ht hw, ht]
  · simp [readPage_of_ne ht, ht]

/-- What reading a page gives is told by its bytes. -/
theorem readPage_congr (h : f.image? w page = f.image? v page) :
    f.readPage w page = f.readPage v page := by
  have h : Bytes.window? (w.read f.path) (page.offset f.pageSize) f.pageSize =
      Bytes.window? (v.read f.path) (page.offset f.pageSize) f.pageSize := h
  simp only [readPage, Volume.readAt, h]

theorem image?_congr (h : w.read f.path = v.read f.path) (page : PageId) :
    f.image? w page = f.image? v page := by rw [image?, image?, h]

theorem pos_of_ofSchema {schema : Schema} {layout : Layout} {pageSize : Nat}
    (h : Layout.ofSchema schema pageSize = .ok layout) : 0 < pageSize := by
  obtain ⟨rfl, hpos⟩ := Page.layout_of_ofSchema h
  refine Nat.pos_of_ne_zero fun hz => ?_
  simp [hz, Layout.slotsFor] at hpos

/-- A file is opened only where a page has room for a row. -/
theorem pageSize_pos_of_openIn {folder : Path} {name : String} {schema : Schema} {pageSize : Nat}
    (h : openIn folder name schema pageSize v = (.ok f, w)) : 0 < f.pageSize := by
  unfold openIn at h
  split at h
  · cases h
  · next layout hlayout =>
    split at h
    · cases h
    · dsimp only at h
      split at h
      · cases h
      · obtain ⟨hf, -⟩ := Prod.mk.inj h
        obtain rfl := Except.ok.inj hf
        exact pos_of_ofSchema hlayout

theorem number_lt_of_readPage (h : f.readPage v page = .ok p) :
    page.number.toNat < f.pageCount v := by
  obtain ⟨-, image, himage, hp⟩ := readPage_eq_ok.1 h
  obtain ⟨layout, -, -, hlayout, -⟩ := Page.decode_eq_ok.1 hp
  have hpos : 0 < f.pageSize := pos_of_ofSchema hlayout
  have hle : page.number.toNat * f.pageSize + f.pageSize ≤ v.length f.path :=
    Bytes.le_of_window? hpos himage
  rw [← Nat.succ_mul] at hle
  exact (Nat.le_div_iff_mul_le hpos).2 hle

theorem belongsTo_of_readPage (h : f.readPage v page = .ok p) : p.BelongsTo f := by
  obtain ⟨ht, image, -, hp⟩ := readPage_eq_ok.1 h
  exact ⟨.of_decode hp, Page.id_of_decode hp ▸ ht, Page.schema_of_decode hp,
    Page.pageSize_of_decode hp⟩

theorem end_le (hlt : page.number.toNat < f.pageCount v) :
    page.offset f.pageSize + f.pageSize ≤ v.length f.path := by
  rw [PageId.offset, ← Nat.succ_mul]
  exact Nat.le_trans (Nat.mul_le_mul_right _ hlt) (Nat.div_mul_le_self _ _)

/-- A file of whole pages that hold rows of a valid schema. Pages that cannot be read may be among
them. -/
structure Intact (f : TableFile) (v : Volume) : Prop where
  schema : f.schema.Valid
  pageSize_lt : f.pageSize < 0x100000000
  layout : ∃ layout, Layout.ofSchema f.schema f.pageSize = .ok layout
  aligned : f.pageSize ∣ v.length f.path

/-- A file without pages. -/
theorem Intact.of_empty {layout : Layout} (hs : f.schema.Valid) (hsize : f.pageSize < 0x100000000)
    (hlayout : Layout.ofSchema f.schema f.pageSize = .ok layout) (h : v.read f.path = []) :
    f.Intact v := by
  have hlen : v.length f.path = 0 := by rw [Volume.length, h, List.length_nil]
  exact ⟨hs, hsize, ⟨layout, hlayout⟩, hlen ▸ Nat.dvd_zero _⟩

/-! ## Storing a page -/

theorem writePage_eq_ok :
    f.writePage v p = .ok w ↔
      p.id.table = f.id ∧ w = v.writeAt f.path (p.id.offset f.pageSize) p.encode := by
  unfold writePage checkOwner
  split
  · next ht => simp [ht, bind, Except.bind, pure, Except.pure, eq_comm]
  · next ht => simp [ht, bind, Except.bind]

/-- The bytes of one page are replaced by its image, and no other byte of any file changes. -/
structure Rewrites (f : TableFile) (p : Page) (v w : Volume) : Prop where
  image : f.image? w p.id = some p.encode
  byte_eq : ∀ i, i < p.id.offset f.pageSize ∨ p.id.offset f.pageSize + f.pageSize ≤ i →
    (w.read f.path)[i]? = (v.read f.path)[i]?
  length_eq : w.length f.path = v.length f.path
  read_eq : ∀ path, path ≠ f.path → w.read path = v.read path
  readPage_eq : ∀ page, page ≠ p.id → f.readPage w page = f.readPage v page

theorem Rewrites.length_path (h : f.Rewrites p v w) (path : Path) :
    w.length path = v.length path := by
  by_cases hpath : path = f.path
  · rw [hpath]
    exact h.length_eq
  · exact congrArg List.length (h.read_eq path hpath)

/-- The bytes of any other page of the file stay. -/
theorem Rewrites.image?_eq (h : f.Rewrites p v w) (ht : page.table = p.id.table)
    (hne : page ≠ p.id) : f.image? w page = f.image? v page := by
  refine Bytes.window?_congr fun i hle hlt => h.byte_eq i ?_
  rcases PageId.offset_disjoint (n := f.pageSize) (PageId.number_ne ht hne) with hbefore | hafter
  · exact .inl (by omega)
  · exact .inr (by omega)

/-- A page that has the size of the pages of a file, and lies inside it, replaces its own bytes. -/
theorem rewrites_of_writePage (hsize : p.layout.pageSize = f.pageSize)
    (hinside : p.id.offset f.pageSize + f.pageSize ≤ v.length f.path)
    (hw : f.writePage v p = .ok w) : f.Rewrites p v w := by
  obtain ⟨ht, rfl⟩ := writePage_eq_ok.1 hw
  have hlen : p.encode.length = f.pageSize := p.length_encode.trans hsize
  have hle : p.id.offset f.pageSize + p.encode.length ≤ (v.read f.path).length := by
    rw [hlen]
    exact hinside
  have hread := v.read_writeAt_self f.path (p.id.offset f.pageSize) p.encode
  refine ⟨?_, ?_, ?_, fun path hne => v.read_writeAt_of_ne hne _ _, ?_⟩
  · have := Bytes.window?_overwrite_self (v.read f.path) (p.id.offset f.pageSize) p.encode
    rwa [hlen, ← hread] at this
  · intro i hi
    rw [hread, Bytes.getElem?_overwrite (by omega), hlen]
    rcases hi with hi | hi
    · rw [if_pos hi]
    · rw [if_neg (by omega), if_neg (by omega)]
  · rw [Volume.length, hread, Bytes.length_overwrite hle]
    rfl
  · intro page hne
    by_cases htable : page.table = f.id
    · refine readPage_congr ?_
      rw [image?, hread, image?]
      refine Bytes.window?_overwrite_of_disjoint (by omega) ?_
      rw [hlen]
      exact PageId.offset_disjoint (PageId.number_ne (htable.trans ht.symm) hne)
    · rw [readPage_of_ne htable, readPage_of_ne htable]

section

variable (hi : f.Intact v) (hb : p.BelongsTo f) (hlt : p.id.number.toNat < f.pageCount v)
  (hw : f.writePage v p = .ok w)

include hw in
theorem read_of_writePage_of_ne {path : Path} (h : path ≠ f.path) : w.read path = v.read path := by
  obtain ⟨-, rfl⟩ := writePage_eq_ok.1 hw
  exact v.read_writeAt_of_ne h _ _

include hi hb hlt hw

/-- A page that is stored reads back as itself; no other page changes. -/
theorem readPage_of_writePage (page : PageId) :
    f.readPage w page = if page = p.id then .ok p.reread else f.readPage v page := by
  have hrewrites := rewrites_of_writePage hb.pageSize_eq (end_le hlt) hw
  split
  · next heq =>
    subst heq
    refine readPage_eq_ok.2 ⟨hb.table_eq, p.encode, hrewrites.image, ?_⟩
    rw [← hb.schema_eq, ← hb.pageSize_eq]
    exact Page.decode_encode hb.sound (hb.schema_eq ▸ hi.schema)
      (hb.pageSize_eq ▸ hi.pageSize_lt)
  · next hne => exact hrewrites.readPage_eq page hne

theorem Intact.of_writePage : f.Intact w := by
  have hlen := (rewrites_of_writePage hb.pageSize_eq (end_le hlt) hw).length_eq
  exact ⟨hi.schema, hi.pageSize_lt, hi.layout, hlen ▸ hi.aligned⟩

end

/-! ## Appending a page -/

section

theorem read_allocate_of_ne {path : Path} (h : path ≠ f.path) :
    (f.allocate v).2.read path = v.read path := v.read_writeAt_of_ne h _ _

theorem id_allocate : (f.allocate v).1.table = f.id := rfl

theorem read_allocate : (f.allocate v).2.read f.path = (v.read f.path).overwrite
    ((f.allocate v).1.offset f.pageSize) (Bytes.zeros f.pageSize) := v.read_writeAt_self _ _ _

/-- An appended page has the image of zeros, wherever it is written. -/
theorem image?_allocate_self :
    f.image? (f.allocate v).2 (f.allocate v).1 = some (Bytes.zeros f.pageSize) := by
  have hwindow := Bytes.window?_overwrite_self (v.read f.path) ((f.allocate v).1.offset f.pageSize)
    (Bytes.zeros f.pageSize)
  rwa [Bytes.length_zeros, ← read_allocate] at hwindow

variable (hsmall : f.pageCount v < 0x100000000)

include hsmall

theorem number_allocate : (f.allocate v).1.number.toNat = f.pageCount v := by
  simp only [allocate, pageAt, UInt32.toNat_ofNat']
  exact Nat.mod_eq_of_lt hsmall

theorem offset_allocate :
    (f.allocate v).1.offset f.pageSize = f.pageCount v * f.pageSize := by
  rw [PageId.offset, number_allocate hsmall]

/-- No page but the one that is appended gets another image. -/
theorem image?_allocate (ht : page.table = f.id) :
    f.image? (f.allocate v).2 page =
      if page = (f.allocate v).1 then some (Bytes.zeros f.pageSize) else f.image? v page := by
  split
  · next heq => rw [heq, image?_allocate_self]
  · next hne =>
    rw [image?, read_allocate]
    refine Bytes.window?_overwrite_of_disjoint ?_ ?_
    · rw [offset_allocate hsmall]
      exact Nat.div_mul_le_self _ _
    · rw [Bytes.length_zeros]
      exact PageId.offset_disjoint (PageId.number_ne (ht.trans id_allocate.symm) hne)

/-- An appended page reads as the page of zeros; no other page changes. -/
theorem readPage_allocate (page : PageId) :
    f.readPage (f.allocate v).2 page =
      if page = (f.allocate v).1 then Page.empty page f.schema f.pageSize
      else f.readPage v page := by
  by_cases ht : page.table = f.id
  · have himage := image?_allocate hsmall ht
    split
    · next heq =>
      rw [if_pos heq] at himage
      exact readPage_of_image ht himage
    · next hne =>
      rw [if_neg hne] at himage
      exact readPage_congr himage
  · rw [readPage_of_ne ht, readPage_of_ne ht, if_neg]
    rintro rfl
    exact ht rfl

end

/-- A file of whole pages grows at its end. -/
theorem read_allocate_of_aligned (haligned : f.pageSize ∣ v.length f.path)
    (hsmall : f.pageCount v < 0x100000000) :
    (f.allocate v).2.read f.path = v.read f.path ++ Bytes.zeros f.pageSize := by
  have hend : (f.allocate v).1.offset f.pageSize = (v.read f.path).length := by
    rw [offset_allocate hsmall]
    exact Nat.div_mul_cancel haligned
  rw [read_allocate, hend, Bytes.overwrite_end]

theorem Intact.read_allocate_eq (hi : f.Intact v) (hsmall : f.pageCount v < 0x100000000) :
    (f.allocate v).2.read f.path = v.read f.path ++ Bytes.zeros f.pageSize :=
  read_allocate_of_aligned hi.aligned hsmall

/-- It has one page more then. -/
theorem pageCount_allocate (haligned : f.pageSize ∣ v.length f.path)
    (hsmall : f.pageCount v < 0x100000000) (hpos : 0 < f.pageSize) :
    f.pageCount (f.allocate v).2 = f.pageCount v + 1 := by
  simp only [pageCount, Volume.length, read_allocate_of_aligned haligned hsmall,
    List.length_append, Bytes.length_zeros]
  exact Nat.add_div_right _ hpos

theorem Intact.allocate (hi : f.Intact v) (hsmall : f.pageCount v < 0x100000000) :
    f.Intact (f.allocate v).2 := by
  refine ⟨hi.schema, hi.pageSize_lt, hi.layout, ?_⟩
  rw [Volume.length, hi.read_allocate_eq hsmall, List.length_append, Bytes.length_zeros]
  exact Nat.dvd_add hi.aligned (Nat.dvd_refl _)

end TableFile

end RowStore
