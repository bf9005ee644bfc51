import Mathlib.Data.List.MinMax
import RowStore.Proofs.File.Pages
import RowStore.Proofs.Page.Cells
import RowStore.Proofs.Page.Edits

/-!
# A file as an array that grows

Pages may be stored in any order and past the end of a file. Seen as if zeros followed its last
byte, a file changes only in the window of the page that is stored, wherever that is, and the pages
that were skipped read as the zeros they are.
-/

namespace RowStore

namespace Bytes

variable {bytes other data : Bytes} {start count : Nat}

/-- The `count` bytes from `start` on, as if zeros followed the last one. -/
def padded (bytes : Bytes) (start count : Nat) : Bytes := fit count (bytes.drop start)

theorem getD_fit (n : Nat) (bytes : Bytes) (i : Nat) :
    (fit n bytes).getD i 0 = if i < n then bytes.getD i 0 else 0 := by
  simp only [fit, zeros, List.getD_eq_getElem?_getD, List.getElem?_append, List.getElem?_take,
    List.getElem?_replicate, List.length_take]
  grind

theorem getD_padded (bytes : Bytes) (start count i : Nat) :
    (bytes.padded start count).getD i 0 = if i < count then bytes.getD (start + i) 0 else 0 := by
  rw [padded, getD_fit]
  simp [List.getD_eq_getElem?_getD]

@[simp] theorem length_padded (bytes : Bytes) (start count : Nat) :
    (bytes.padded start count).length = count := length_fit _ _

/-- Such a window is told by the bytes in it. -/
theorem padded_eq (hlen : data.length = count)
    (h : ∀ i, i < count → bytes.getD (start + i) 0 = data.getD i 0) :
    bytes.padded start count = data := by
  refine List.ext_getElem (by simp [hlen]) fun i hi hi' => ?_
  have hlt : i < count := by simpa using hi
  have hget := getD_padded bytes start count i
  rw [if_pos hlt, h i hlt] at hget
  simpa [List.getD_eq_getElem?_getD, List.getElem?_eq_getElem hi, List.getElem?_eq_getElem hi']
    using hget

theorem window?_eq_padded (h : start + count ≤ bytes.length) :
    bytes.window? start count = some (bytes.padded start count) := by
  rw [window?_of_le h, padded, fit, List.length_drop, Nat.sub_eq_zero_of_le (by omega)]
  simp [zeros]

theorem padded_of_length_le (h : bytes.length ≤ start) :
    bytes.padded start count = zeros count := by
  simp [padded, fit, List.drop_of_length_le h]

/-- Also past the end only the window that is written gets other bytes. -/
theorem getD_overwrite (bytes : Bytes) (start : Nat) (data : Bytes) (i : Nat) :
    (overwrite bytes start data).getD i 0 =
      if start ≤ i ∧ i < start + data.length then data.getD (i - start) 0
      else bytes.getD i 0 := by
  unfold overwrite
  split
  · next hnil => rw [if_neg (by rw [hnil, List.length_nil]; omega)]
  · simp only [fit, zeros, List.getD_eq_getElem?_getD, List.getElem?_append, List.getElem?_take,
      List.getElem?_replicate, List.length_take, List.length_append, List.length_replicate,
      List.getElem?_drop]
    grind

/-- A byte that is there stays if it is not written. -/
theorem getElem?_overwrite_of_lt {i : Nat} (hi : i < bytes.length)
    (hout : i < start ∨ start + data.length ≤ i) :
    (overwrite bytes start data)[i]? = bytes[i]? := by
  unfold overwrite
  split
  · rfl
  · simp only [fit, zeros, List.getElem?_append, List.getElem?_take, List.getElem?_replicate,
      List.length_take, List.length_append, List.length_replicate, List.getElem?_drop]
    grind

theorem padded_overwrite_self (bytes : Bytes) (start : Nat) (data : Bytes) :
    (overwrite bytes start data).padded start data.length = data := by
  refine padded_eq rfl fun i hi => ?_
  rw [getD_overwrite, if_pos (by omega), Nat.add_sub_cancel_left]

theorem padded_overwrite_of_disjoint {s c : Nat}
    (h : s + c ≤ start ∨ start + data.length ≤ s) :
    (overwrite bytes start data).padded s c = bytes.padded s c := by
  refine padded_eq (length_padded _ _ _) fun i hi => ?_
  rw [getD_overwrite, if_neg (by omega), getD_padded, if_pos hi]

theorem length_overwrite_eq_max (h : data ≠ []) :
    (overwrite bytes start data).length = max bytes.length (start + data.length) := by
  simp only [overwrite, if_neg h, List.length_append, length_fit, List.length_drop]
  omega

end Bytes

/-- A sound page is sound under any schema of the same column types. -/
theorem Page.Sound.under {p : Page} {schema : Schema} (h : p.Sound)
    (htypes : schema.types = p.schema.types) : Page.Sound { p with schema := schema } := by
  have hrow : schema.rowSize = p.schema.rowSize := by rw [Schema.rowSize, htypes, Schema.rowSize]
  have hlayout := h.layout_eq
  unfold Layout.ofSchema at hlayout
  refine ⟨?_, h.header, h.slots_eq, h.length_eq, h.isSet_eq, ?_⟩
  · unfold Layout.ofSchema
    rwa [hrow]
  intro i r hr
  have hhoused := h.housed i r hr
  exact ⟨hhoused.types_eq.trans htypes.symm, htypes ▸ hhoused.fits, hhoused.place_eq⟩

theorem Page.rows_reread_blank (page : PageId) (schema : Schema) (layout : Layout) :
    (Page.blank page schema layout).reread.rows = [] := by
  refine List.eq_nil_iff_forall_not_mem.2 fun r hr => ?_
  obtain ⟨i, hi⟩ := Page.mem_rows.1 hr
  rw [Page.row?_reread, Page.row?_blank] at hi
  cases hi

namespace TableFile

variable {f : TableFile} {v w : Volume} {p : Page} {page : PageId}

theorem Intact.of_openIn {folder : Path} {name : String} {schema : Schema} {pageSize : Nat}
    (hs : schema.Valid) (hsmall : pageSize < 0x100000000)
    (h : openIn folder name schema pageSize v = (.ok f, w)) : f.Intact w := by
  unfold openIn at h
  split at h
  · cases h
  · next layout hlayout =>
    split at h
    · cases h
    · dsimp only at h
      split at h
      · cases h
      · next heven =>
        obtain ⟨hf, rfl⟩ := Prod.mk.inj h
        obtain rfl := Except.ok.inj hf
        exact ⟨hs, hsmall, ⟨layout, hlayout⟩,
          Nat.dvd_of_mod_eq_zero (Decidable.not_not.1 heven)⟩

/-- A page of a table, however it was made, with the column types and the size of its pages. -/
structure Takes (f : TableFile) (p : Page) : Prop where
  table_eq : p.id.table = f.id
  handled : ∃ schema, schema.types = f.schema.types ∧ Page.Handled p.id schema f.pageSize p

/-- The bytes of a page, as if zeros followed the last byte of the file. -/
def padded (f : TableFile) (v : Volume) (page : PageId) : Bytes :=
  (v.read f.path).padded (page.offset f.pageSize) f.pageSize

/-- In a file of whole pages a page is there or it is not. -/
theorem image?_eq_padded (hpos : 0 < f.pageSize) (haligned : f.pageSize ∣ v.length f.path) :
    f.image? v page =
      if page.number.toNat < f.pageCount v then some (f.padded v page) else none := by
  split
  · next hlt => exact Bytes.window?_eq_padded (end_le hlt)
  · next hge =>
    refine Bytes.window?_eq_none hpos ?_
    have hlen : f.pageCount v * f.pageSize = v.length f.path := Nat.div_mul_cancel haligned
    have hle := Nat.mul_le_mul_right f.pageSize (Nat.le_of_not_lt hge)
    show v.length f.path < page.number.toNat * f.pageSize + f.pageSize
    omega

/-- A page that was never there has only zeros. -/
theorem padded_of_pageCount_le (haligned : f.pageSize ∣ v.length f.path)
    (h : f.pageCount v ≤ page.number.toNat) : f.padded v page = Bytes.zeros f.pageSize := by
  refine Bytes.padded_of_length_le ?_
  have hlen : f.pageCount v * f.pageSize = v.length f.path := Nat.div_mul_cancel haligned
  exact Nat.le_trans (Nat.le_of_eq hlen.symm) (Nat.mul_le_mul_right f.pageSize h)

theorem readPage_of_pageCount_le (hpos : 0 < f.pageSize)
    (haligned : f.pageSize ∣ v.length f.path) (ht : page.table = f.id)
    (h : f.pageCount v ≤ page.number.toNat) : ∃ fault, f.readPage v page = .error (.io fault) := by
  have himage : Bytes.window? (v.read f.path) (page.offset f.pageSize) f.pageSize = none := by
    have himage : f.image? v page = _ := image?_eq_padded hpos haligned
    rwa [if_neg (Nat.not_lt.2 h)] at himage
  refine ⟨if page.offset f.pageSize + f.pageSize < Volume.positionLimit then .shortRead
    else .refused, ?_⟩
  simp [readPage, checkOwner, Volume.readAt, ht, himage, bind, Except.bind]

/-! ## One page -/

section

variable (hsize : p.layout.pageSize = f.pageSize) (hw : f.writePage v p = .ok w)

include hsize hw

/-- The page that is stored has its image, and any other page the bytes that it had. -/
theorem padded_writePage (ht : page.table = f.id) :
    f.padded w page = if page = p.id then p.encode else f.padded v page := by
  obtain ⟨htable, rfl⟩ := writePage_eq_ok.1 hw
  have hlen : p.encode.length = f.pageSize := p.length_encode.trans hsize
  unfold padded
  rw [Volume.read_writeAt_self]
  split
  · next heq =>
    rw [heq, ← hlen]
    exact Bytes.padded_overwrite_self _ _ _
  · next hne =>
    refine Bytes.padded_overwrite_of_disjoint ?_
    rw [hlen]
    exact PageId.offset_disjoint (PageId.number_ne (ht.trans htable.symm) hne)

/-- A file of whole pages has room for the page that is stored, and no more than it needs. -/
theorem length_writePage (hpos : 0 < f.pageSize) (haligned : f.pageSize ∣ v.length f.path) :
    w.length f.path = max (f.pageCount v) (p.id.number.toNat + 1) * f.pageSize := by
  obtain ⟨-, rfl⟩ := writePage_eq_ok.1 hw
  have hlen : p.encode.length = f.pageSize := p.length_encode.trans hsize
  have hne : p.encode ≠ [] := List.ne_nil_of_length_pos (hlen ▸ hpos)
  have hcount : f.pageCount v * f.pageSize = (v.read f.path).length := Nat.div_mul_cancel haligned
  rw [Volume.length, Volume.read_writeAt_self, Bytes.length_overwrite_eq_max hne, hlen, ← hcount,
    PageId.offset, ← Nat.succ_mul, Nat.mul_max_mul_right]

/-- No byte that the file had changes outside the page that is stored. -/
theorem getElem?_writePage {i : Nat} (hi : i < v.length f.path)
    (hout : i < p.id.offset f.pageSize ∨ p.id.offset f.pageSize + f.pageSize ≤ i) :
    (w.read f.path)[i]? = (v.read f.path)[i]? := by
  obtain ⟨-, rfl⟩ := writePage_eq_ok.1 hw
  have hlen : p.encode.length = f.pageSize := p.length_encode.trans hsize
  rw [Volume.read_writeAt_self]
  exact Bytes.getElem?_overwrite_of_lt hi (hlen ▸ hout)

end

/-! ## Any number of pages -/

theorem Takes.pageSize_eq (h : f.Takes p) : p.layout.pageSize = f.pageSize := by
  obtain ⟨-, schema, -, hp⟩ := h
  exact hp.sound.2.2.2

/-- The image of a page of the table reads as the page. -/
theorem Takes.exists_restores (h : f.Takes p) (hs : f.schema.Valid)
    (hsmall : f.pageSize < 0x100000000) :
    ∃ q, Page.decode p.id f.schema f.pageSize p.encode = .ok q ∧ q.Restores p := by
  obtain ⟨-, schema, htypes, hp⟩ := h
  obtain ⟨hsound, -, rfl, hsize⟩ := hp.sound
  have hdecode := Page.decode_encode (hsound.under htypes.symm) hs (hsize ▸ hsmall)
  obtain ⟨hid, hheader, hcells, hplaces⟩ :=
    Page.restores_reread { p with schema := f.schema }
  exact ⟨_, hsize ▸ hdecode, hid, hheader, hcells, hplaces⟩

/-- Pages of the table can be stored. -/
theorem exists_foldlM_writePage {writes : List Page} (hwrites : ∀ p ∈ writes, f.Takes p)
    (v : Volume) : ∃ w, writes.foldlM f.writePage v = .ok w := by
  induction writes generalizing v with
  | nil => exact ⟨v, rfl⟩
  | cons p writes ih =>
    obtain ⟨hp, hrest⟩ := List.forall_mem_cons.1 hwrites
    obtain ⟨w, hw⟩ := ih hrest (v.writeAt f.path (p.id.offset f.pageSize) p.encode)
    refine ⟨w, ?_⟩
    rw [List.foldlM_cons, writePage_eq_ok.2 ⟨hp.table_eq, rfl⟩]
    exact hw

/-- They change no other page, and the file grows as far as the highest of them. -/
theorem foldlM_writePage (hpos : 0 < f.pageSize) {writes : List Page}
    (hwrites : ∀ p ∈ writes, f.Takes p) (haligned : f.pageSize ∣ v.length f.path)
    (hw : writes.foldlM f.writePage v = .ok w) :
    f.pageSize ∣ w.length f.path ∧
      f.pageCount w =
        max (f.pageCount v) ((writes.map fun p => p.id.number.toNat + 1).foldr max 0) ∧
      ∀ page : PageId, page.table = f.id → (∀ p ∈ writes, p.id ≠ page) →
        f.padded w page = f.padded v page := by
  induction writes generalizing v with
  | nil =>
    obtain rfl := Except.ok.inj hw
    exact ⟨haligned, (Nat.max_zero _).symm, fun _ _ _ => rfl⟩
  | cons p writes ih =>
    obtain ⟨hp, hrest⟩ := List.forall_mem_cons.1 hwrites
    rw [List.foldlM_cons] at hw
    obtain ⟨u, hu, hw⟩ := Except.bind_eq_ok.1 hw
    have hlen := length_writePage hp.pageSize_eq hu hpos haligned
    have hcount : f.pageCount u = max (f.pageCount v) (p.id.number.toNat + 1) := by
      rw [pageCount, hlen, Nat.mul_div_cancel _ hpos]
    obtain ⟨halignedw, hcountw, hkept⟩ := ih hrest (hlen ▸ Nat.dvd_mul_left _ _) hw
    refine ⟨halignedw, ?_, fun page ht hne => ?_⟩
    · rw [hcountw, hcount, List.map_cons, List.foldr_cons, Nat.max_assoc]
    · obtain ⟨hne, hrest⟩ := List.forall_mem_cons.1 hne
      rw [hkept page ht hrest, padded_writePage hp.pageSize_eq hu ht, if_neg (Ne.symm hne)]

theorem foldlM_writePage_append {earlier later : List Page}
    (hw : (earlier ++ p :: later).foldlM f.writePage v = .ok w) :
    ∃ u x, earlier.foldlM f.writePage v = .ok u ∧ f.writePage u p = .ok x ∧
      later.foldlM f.writePage x = .ok w := by
  rw [List.foldlM_append] at hw
  obtain ⟨u, hu, hw⟩ := Except.bind_eq_ok.1 hw
  rw [List.foldlM_cons] at hw
  obtain ⟨x, hx, hw⟩ := Except.bind_eq_ok.1 hw
  exact ⟨u, x, hu, hx, hw⟩

/-- What a file comes to when pages are stored in it one after another. -/
structure Stores (f : TableFile) (v : Volume) (writes : List Page) (w : Volume) : Prop where
  aligned : f.pageSize ∣ w.length f.path
  pageCount_eq : f.pageCount w =
    max (f.pageCount v) ((writes.map fun p => p.id.number.toNat + 1).foldr max 0)
  written : ∀ earlier p later, writes = earlier ++ p :: later → (∀ q ∈ later, q.id ≠ p.id) →
    ∃ q, f.readPage w p.id = .ok q ∧ q.Restores p
  kept : ∀ page : PageId, page.table = f.id → (∀ p ∈ writes, p.id ≠ page) →
    page.number.toNat < f.pageCount v → f.readPage w page = f.readPage v page
  skipped : ∀ page : PageId, page.table = f.id → (∀ p ∈ writes, p.id ≠ page) →
    f.pageCount v ≤ page.number.toNat → page.number.toNat < f.pageCount w →
    ∃ q, f.readPage w page = .ok q ∧ Page.empty page f.schema f.pageSize = .ok q ∧ q.rows = []
  absent : ∀ page : PageId, page.table = f.id → f.pageCount w ≤ page.number.toNat →
    ∃ fault, f.readPage w page = .error (.io fault)
  apart : ∀ earlier p later, writes = earlier ++ p :: later →
    ∃ u x, earlier.foldlM f.writePage v = .ok u ∧ f.writePage u p = .ok x ∧
      later.foldlM f.writePage x = .ok w ∧
      ∀ page : PageId, page.table = f.id → page ≠ p.id → page.number.toNat < f.pageCount u →
        ∀ i, page.offset f.pageSize ≤ i → i < page.offset f.pageSize + f.pageSize →
          (x.read f.path)[i]? = (u.read f.path)[i]?

/-- Whatever pages are stored in a file, in whatever order, it has whole pages. Each reads as it was
stored last; those that were not stored read as before, or without rows if they were not there. -/
theorem array_of_pages {folder : Path} {name : String} {schema : Schema} {pageSize : Nat}
    {v₀ : Volume} (hs : schema.Valid) (hsmall : pageSize < 0x100000000)
    (hopen : openIn folder name schema pageSize v₀ = (.ok f, v)) {writes : List Page}
    (hwrites : ∀ p ∈ writes, f.Takes p) :
    ∃ w, writes.foldlM f.writePage v = .ok w ∧ f.Stores v writes w := by
  have hi := Intact.of_openIn hs hsmall hopen
  obtain ⟨layout, hlayout⟩ := hi.layout
  have hpos := pos_of_ofSchema hlayout
  obtain ⟨w, hw⟩ := exists_foldlM_writePage hwrites v
  obtain ⟨haligned, hcount, hkept⟩ := foldlM_writePage hpos hwrites hi.aligned hw
  -- a page that is there reads from its bytes
  have hread {page : PageId} (ht : page.table = f.id) (hlt : page.number.toNat < f.pageCount w) :
      f.readPage w page = Page.decode page f.schema f.pageSize (f.padded w page) := by
    refine readPage_of_image ht ?_
    rw [image?_eq_padded hpos haligned, if_pos hlt]
  refine ⟨w, hw, haligned, hcount, ?_, ?_, ?_, fun page => readPage_of_pageCount_le hpos haligned,
    ?_⟩
  · rintro earlier p later rfl hlater
    have hp := hwrites p (by simp)
    obtain ⟨u, x, hu, hx, hrun⟩ := foldlM_writePage_append hw
    obtain ⟨hearlier, hrest⟩ := List.forall_mem_append.1 hwrites
    obtain ⟨halignedu, -⟩ := foldlM_writePage hpos hearlier hi.aligned hu
    have hlen := length_writePage hp.pageSize_eq hx hpos halignedu
    obtain ⟨-, -, hkeptx⟩ := foldlM_writePage hpos (List.forall_mem_cons.1 hrest).2
      (hlen ▸ Nat.dvd_mul_left _ _) hrun
    have hlt : p.id.number.toNat < f.pageCount w := by
      rw [hcount]
      exact Nat.lt_of_lt_of_le (List.le_max_of_le' 0 (by simp) (Nat.le_refl _))
        (Nat.le_max_right _ _)
    obtain ⟨q, hq, hrestores⟩ := hp.exists_restores hi.schema hi.pageSize_lt
    refine ⟨q, ?_, hrestores⟩
    rw [hread hp.table_eq hlt, hkeptx p.id hp.table_eq hlater,
      padded_writePage hp.pageSize_eq hx hp.table_eq, if_pos rfl, hq]
  · intro page ht hne hlt
    have hltw : page.number.toNat < f.pageCount w := by
      rw [hcount]
      exact Nat.lt_of_lt_of_le hlt (Nat.le_max_left _ _)
    refine readPage_congr ?_
    rw [image?_eq_padded hpos haligned, image?_eq_padded hpos hi.aligned, if_pos hlt,
      if_pos hltw, hkept page ht hne]
  · intro page ht hne hge hlt
    refine ⟨_, ?_, Page.empty_eq_ok hlayout hi.schema hi.pageSize_lt,
      Page.rows_reread_blank _ _ _⟩
    rw [hread ht hlt, hkept page ht hne, padded_of_pageCount_le hi.aligned hge]
    exact Page.empty_eq_ok hlayout hi.schema hi.pageSize_lt
  · rintro earlier p later rfl
    have hp := hwrites p (by simp)
    obtain ⟨u, x, hu, hx, hrun⟩ := foldlM_writePage_append hw
    refine ⟨u, x, hu, hx, hrun, fun page ht hne hlt i hfrom hto => ?_⟩
    refine getElem?_writePage hp.pageSize_eq hx (Nat.lt_of_lt_of_le hto (end_le hlt)) ?_
    have hnumber := PageId.number_ne (ht.trans hp.table_eq.symm) hne
    rcases PageId.offset_disjoint (n := f.pageSize) hnumber with hbefore | hafter
    · exact .inl (by omega)
    · exact .inr (by omega)

/-- In a new file page 2 is stored, then page 0, then page 2 again with another row. Page 1 between
them was skipped, and there is no page 3. -/
theorem array_of_pages_out_of_order :
    ∃ (f : TableFile) (v w : Volume) (two zero again : Page),
      openIn [] "t" ⟨[⟨.int, none⟩]⟩ 9 ⟨[[]], Keyed.empty⟩ = (.ok f, v) ∧
      f.Takes two ∧ f.Takes zero ∧ f.Takes again ∧
      two.id = ⟨f.id, 2⟩ ∧ zero.id = ⟨f.id, 0⟩ ∧ again.id = ⟨f.id, 2⟩ ∧
      two.cells = [some [.int 5], none] ∧ zero.cells = [some [.int 6], none] ∧
      again.cells = [some [.int 6], none] ∧
      [two, zero, again].foldlM f.writePage v = .ok w ∧
      f.pageCount v = 0 ∧ f.pageCount w = 3 ∧ f.Stores v [two, zero, again] w := by
  obtain ⟨five, hfive⟩ : ∃ five : { row : Row // row.Valid }, five =
    ⟨_, Row.valid_of_ofValues (show Row.ofValues ⟨[⟨.int, none⟩]⟩ [.int 5] = _ from rfl)⟩ :=
    ⟨_, rfl⟩
  obtain ⟨six, hsix⟩ : ∃ six : { row : Row // row.Valid }, six =
    ⟨_, Row.valid_of_ofValues (show Row.ofValues ⟨[⟨.int, none⟩]⟩ [.int 6] = _ from rfl)⟩ :=
    ⟨_, rfl⟩
  obtain ⟨id, hid⟩ : ∃ id, id = idOf ["t"] := ⟨_, rfl⟩
  obtain ⟨last, hlast⟩ : ∃ p, Page.empty ⟨id, 2⟩ ⟨[⟨.int, none⟩]⟩ 9 = .ok p := ⟨_, rfl⟩
  obtain ⟨first, hfirst⟩ : ∃ p, Page.empty ⟨id, 0⟩ ⟨[⟨.int, none⟩]⟩ 9 = .ok p := ⟨_, rfl⟩
  let f : TableFile := ⟨["t"], id, ⟨[⟨.int, none⟩]⟩, 9⟩
  let opened := openIn [] "t" ⟨[⟨.int, none⟩]⟩ 9 ⟨[[]], Keyed.empty⟩
  have hopened : opened.1 = .ok ⟨["t"], idOf ["t"], ⟨[⟨.int, none⟩]⟩, 9⟩ := by decide +kernel
  have hcount : pageCount ⟨["t"], idOf ["t"], ⟨[⟨.int, none⟩]⟩, 9⟩ opened.2 = 0 := by
    decide +kernel
  rw [← hid] at hopened hcount
  have takes {page : PageId} {start : Page} (hpage : page.table = id)
      (hstart : Page.empty page ⟨[⟨.int, none⟩]⟩ 9 = .ok start) (edits : List Page.Edit) :
      f.Takes (edits.foldl Page.edit start) := by
    have hp := (Page.Handled.empty hstart).foldl edits
    obtain rfl := hp.sound.2.1
    exact ⟨hpage, _, rfl, hp⟩
  obtain ⟨two, htwo, hidtwo, hcellstwo⟩ : ∃ p, f.Takes p ∧ p.id = ⟨f.id, 2⟩ ∧
      p.cells = [some [.int 5], none] := by
    refine ⟨_, takes rfl hlast [.insert five], ?_⟩
    cases hlast
    subst hfive
    exact ⟨rfl, rfl⟩
  obtain ⟨zero, hzero, hidzero, hcellszero⟩ : ∃ p, f.Takes p ∧ p.id = ⟨f.id, 0⟩ ∧
      p.cells = [some [.int 6], none] := by
    refine ⟨_, takes rfl hfirst [.insert six], ?_⟩
    cases hfirst
    subst hsix
    exact ⟨rfl, rfl⟩
  obtain ⟨again, hagain, hidagain, hcellsagain⟩ : ∃ p, f.Takes p ∧ p.id = ⟨f.id, 2⟩ ∧
      p.cells = [some [.int 6], none] := by
    refine ⟨_, takes rfl hlast [.insert six], ?_⟩
    cases hlast
    subst hsix
    exact ⟨rfl, rfl⟩
  obtain ⟨w, hw, hstores⟩ := array_of_pages (f := f) (by decide) (by decide)
    (Prod.ext hopened rfl : _ = (_, opened.2))
    (List.forall_mem_cons.2 ⟨htwo, List.forall_mem_cons.2 ⟨hzero,
      List.forall_mem_singleton.2 hagain⟩⟩)
  refine ⟨f, opened.2, w, two, zero, again, Prod.ext hopened rfl, htwo, hzero, hagain, hidtwo,
    hidzero, hidagain, hcellstwo, hcellszero, hcellsagain, hw, hcount, ?_, hstores⟩
  rw [hstores.pageCount_eq, hcount, List.map_cons, List.map_cons, List.map_singleton, hidtwo,
    hidzero, hidagain]
  rfl

end TableFile

end RowStore
