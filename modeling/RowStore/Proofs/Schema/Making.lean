import RowStore.Proofs.Json.Compact
import RowStore.Schema.Json

/-!
# Schemas, however they are made

A schema is made of columns, merged of two schemas or read from JSON. Only the first of these ways
checks the columns and counts the bytes of a row; the others rely on it. The count is kept with the
schema, in a word of 64 bits, and merging adds two counts up. All the same each schema is the one
that is made of its columns, and it is read back from what is written of it. How texts and numbers
are written and read does not matter there, as long as they are read back when they stand alone.
-/

namespace RowStore

theorem toOption_eq_some_iff {ε α : Type} {e : Except ε α} {a : α} :
    e.toOption = some a ↔ e = .ok a := by
  cases e <;> simp [Except.toOption]

namespace ColumnType

theorem ofJson?_toJson {t : ColumnType} (h : t.width < 0x10000000000000000) :
    ofJson? t.toJson = some t := by
  cases t with
  | int => rfl
  | text w =>
    have hsize : (Json.natural w).size? = some w := if_pos h
    simp [toJson, ofJson?, hsize]

theorem plain_toJson {t : ColumnType} (h : t.width < 0x10000000000000000) : t.toJson.Plain := by
  cases t with
  | int => exact List.forall_mem_singleton.2 trivial
  | text w =>
    refine Json.plain_record (List.forall_mem_singleton.2 ⟨trivial, ?_⟩)
    exact List.forall_mem_singleton.2 h

end ColumnType

namespace Column

theorem nameOfJson?_nameToJson (name : Option String) :
    nameOfJson? (nameToJson name) = some name := by
  cases name <;> rfl

theorem ofJson?_toJson {c : Column} (h : c.type.width < 0x10000000000000000) :
    ofJson? c.toJson = some c :=
  calc ofJson? c.toJson
    _ = (do return ⟨← ColumnType.ofJson? c.type.toJson, ← nameOfJson? (nameToJson c.name)⟩) := rfl
    _ = some c := by rw [ColumnType.ofJson?_toJson h, nameOfJson?_nameToJson]; rfl

theorem plain_nameToJson (name : Option String) : (nameToJson name).Plain := by
  cases name <;> exact List.forall_mem_singleton.2 trivial

theorem plain_toJson {c : Column} (h : c.type.width < 0x10000000000000000) : c.toJson.Plain := by
  refine Json.plain_record (List.forall_mem_cons.2 ⟨⟨trivial, ColumnType.plain_toJson h⟩, ?_⟩)
  exact List.forall_mem_singleton.2 ⟨trivial, plain_nameToJson c.name⟩

theorem mapM_ofJson?_toJson {columns : List Column}
    (h : ∀ c ∈ columns, c.type.width < 0x10000000000000000) :
    (columns.map toJson).mapM ofJson? = some columns := by
  induction columns with
  | nil => rfl
  | cons c columns ih =>
    obtain ⟨hc, hcolumns⟩ := List.forall_mem_cons.1 h
    simp [List.mapM_cons, ofJson?_toJson hc, ih hcolumns]

end Column

namespace Schema

variable {s t : Schema} {columns : List Column} {name : String} {i : Nat}

/-- A list of columns is written whether or not it makes a schema. It is read if it makes one. -/
theorem ofJson?_list (h : ∀ c ∈ columns, c.type.width < 0x10000000000000000) :
    ofJson? (.list (columns.map Column.toJson)) = (ofColumns columns).toOption := by
  rw [ofJson?, Column.mapM_ofJson?_toJson h]
  rfl

/-- What is read is made of the columns that are read. -/
theorem ofJson?_eq_some_iff {j : Json} : ofJson? j = some s ↔
    ∃ items, j = .list items ∧ items.mapM Column.ofJson? = some s.columns ∧
      ofColumns s.columns = .ok s := by
  constructor
  · intro h
    unfold ofJson? at h
    split at h
    · next items =>
      obtain ⟨columns, hcolumns, hs⟩ := Option.bind_eq_some_iff.1 h
      have hmade := toOption_eq_some_iff.1 hs
      obtain ⟨-, rfl⟩ := ofColumns_eq_ok_iff.1 hmade
      exact ⟨items, rfl, hcolumns, hmade⟩
    · cases h
  · rintro ⟨items, rfl, hcolumns, hmade⟩
    rw [ofJson?, hcolumns]
    exact toOption_eq_some_iff.2 hmade

/-! ## Finding a column by its name -/

/-- The column at `i` has this name. -/
def NamedAt (s : Schema) (name : String) (i : Nat) : Prop :=
  ∃ c, s.columns[i]? = some c ∧ c.name = some name

theorem namedAt_iff : s.NamedAt name i ↔
    ∃ h : i < s.columns.length, s.columns[i].name = some name := by
  simp only [NamedAt, List.getElem?_eq_some_iff]
  constructor
  · rintro ⟨c, ⟨hi, rfl⟩, hname⟩
    exact ⟨hi, hname⟩
  · rintro ⟨hi, hname⟩
    exact ⟨_, ⟨hi, rfl⟩, hname⟩

theorem indexOf_eq_ok_iff : s.indexOf name = .ok i ↔
    s.NamedAt name i ∧ ∀ j, j < i → ¬ s.NamedAt name j := by
  have hfind : s.indexOf name = .ok i ↔
      s.columns.findIdx? (fun c => c.name = some name) = some i := by
    unfold indexOf
    cases s.columns.findIdx? fun c => c.name = some name <;> simp
  rw [hfind, List.findIdx?_eq_some_iff_getElem, namedAt_iff]
  constructor
  · rintro ⟨hi, hname, hfirst⟩
    refine ⟨⟨hi, of_decide_eq_true hname⟩, fun j hj hnamed => hfirst j hj ?_⟩
    exact decide_eq_true (namedAt_iff.1 hnamed).2
  · rintro ⟨⟨hi, hname⟩, hfirst⟩
    refine ⟨hi, decide_eq_true hname, fun j hj hnamed => hfirst j hj ?_⟩
    exact namedAt_iff.2 ⟨_, of_decide_eq_true hnamed⟩

/-- A name is not found if no column has it. -/
theorem indexOf_eq_error_iff {e : StorageError} : s.indexOf name = .error e ↔
    (∀ i, ¬ s.NamedAt name i) ∧ e = .columnNotFound name := by
  unfold indexOf
  split
  · next i hi =>
    refine iff_of_false nofun fun h => h.1 i ?_
    obtain ⟨hlt, hname, -⟩ := List.findIdx?_eq_some_iff_getElem.1 hi
    exact namedAt_iff.2 ⟨hlt, of_decide_eq_true hname⟩
  · next hnone =>
    have hno : ∀ i, ¬ s.NamedAt name i := by
      rintro i ⟨c, hc, hname⟩
      exact of_decide_eq_false (List.findIdx?_eq_none_iff.1 hnone c (List.mem_of_getElem? hc)) hname
    simp [hno, eq_comm]

/-- The columns of the second schema are found behind those of the first one. -/
theorem indexOf_merge (s t : Schema) (name : String) : (s.merge t).indexOf name =
    match s.indexOf name with
    | .ok i => .ok i
    | .error _ => (s.columnCount + ·) <$> t.indexOf name := by
  unfold indexOf merge columnCount
  rw [List.findIdx?_append]
  cases s.columns.findIdx? fun c => c.name = some name with
  | some i => rfl
  | none =>
    cases t.columns.findIdx? fun c => c.name = some name with
    | some i => simp [Nat.add_comm]
    | none => rfl

/-! ## The size that is kept -/

/-- A schema with the bytes that one row takes, as they were counted when it was made. -/
structure Measured where
  schema : Schema
  size : UInt64
  deriving DecidableEq

/-- Count the bytes of a row, column by column. -/
def measure (s : Schema) : Measured :=
  ⟨s, s.columns.foldl (fun size c => size + c.type.width.toUInt64) 0⟩

theorem foldl_width (columns : List Column) (size : UInt64) :
    columns.foldl (fun size c => size + c.type.width.toUInt64) size =
      size + (Schema.mk columns).rowSize.toUInt64 := by
  induction columns generalizing size with
  | nil => exact (UInt64.add_zero size).symm
  | cons c columns ih =>
    have hsize : (Schema.mk (c :: columns)).rowSize.toUInt64 =
        c.type.width.toUInt64 + (Schema.mk columns).rowSize.toUInt64 :=
      UInt64.ofNat_add _ _
    rw [List.foldl_cons, ih, hsize, UInt64.add_assoc]

theorem size_measure (s : Schema) : s.measure.size = s.rowSize.toUInt64 :=
  (foldl_width s.columns 0).trans (UInt64.zero_add _)

namespace Measured

/-- The columns are taken over and the sizes added up. No column is looked at. -/
def merge (a b : Measured) : Measured := ⟨a.schema.merge b.schema, a.size + b.size⟩

/-- The ways to come by a schema. -/
inductive Obtained : Measured → Prop
  | made {s : Schema} {columns : List Column} : ofColumns columns = .ok s → Obtained s.measure
  | named {s : Schema} {columns : List (ColumnType × String)} :
    Schema.named columns = .ok s → Obtained s.measure
  | anonymous {s : Schema} {types : List ColumnType} :
    Schema.anonymous types = .ok s → Obtained s.measure
  | read {s : Schema} {j : Json} : ofJson? j = some s → Obtained s.measure
  | merged {a b : Measured} : Obtained a → Obtained b → Obtained (a.merge b)

end Measured

/-- Adding up two sizes that were counted is counting them at once. -/
theorem measure_merge (s t : Schema) : (s.merge t).measure = s.measure.merge t.measure := by
  have hsize : (s.merge t).measure.size = s.measure.size + t.measure.size := by
    rw [size_measure, size_measure, size_measure, rowSize_merge]
    exact UInt64.ofNat_add _ _
  exact congrArg (Measured.mk (s.merge t)) hsize

theorem Valid.merge (hs : s.Valid) (ht : t.Valid) : (s.merge t).Valid where
  nonempty := List.append_ne_nil_of_left_ne_nil hs.nonempty _
  typeValid := by
    rw [types_merge]
    exact List.forall_mem_append.2 ⟨hs.typeValid, ht.typeValid⟩

namespace Measured

variable {a b : Measured}

theorem merge_assoc (a b c : Measured) : (a.merge b).merge c = a.merge (b.merge c) := by
  simp [merge, Schema.merge, List.append_assoc, UInt64.add_assoc]

/-- Whatever the way, the schema could have been made of its columns, and its size is the one that
would have been counted then. -/
theorem Obtained.valid (h : a.Obtained) : a.schema.Valid ∧ a = a.schema.measure := by
  induction h with
  | made h => exact ⟨(ofColumns_eq_ok_iff.1 h).1, rfl⟩
  | named h => exact ⟨(ofColumns_eq_ok_iff.1 h).1, rfl⟩
  | anonymous h => exact ⟨(ofColumns_eq_ok_iff.1 h).1, rfl⟩
  | read h =>
    obtain ⟨-, -, -, hmade⟩ := ofJson?_eq_some_iff.1 h
    exact ⟨(ofColumns_eq_ok_iff.1 hmade).1, rfl⟩
  | @merged a b _ _ iha ihb =>
    refine ⟨iha.1.merge ihb.1, ?_⟩
    calc a.merge b = a.schema.measure.merge b.schema.measure := by rw [← iha.2, ← ihb.2]
      _ = (a.schema.merge b.schema).measure := (measure_merge _ _).symm

theorem Obtained.remade (h : a.Obtained) : (ofColumns a.schema.columns).map measure = .ok a := by
  obtain ⟨hvalid, hmeasured⟩ := h.valid
  have hmade : ofColumns a.schema.columns = .ok a.schema := ofColumns_eq_ok_iff.2 ⟨hvalid, rfl⟩
  rw [hmade]
  exact congrArg Except.ok hmeasured.symm

theorem Obtained.toNat_size (h : a.Obtained) (hsize : a.schema.rowSize < 0x10000000000000000) :
    a.size.toNat = a.schema.rowSize := by
  rw [h.valid.2, size_measure]
  exact UInt64.toNat_ofNat_of_lt' hsize

end Measured

/-- What can be said of one schema that was obtained. -/
structure Measured.Conforming (x : Json.Lexis) (w : Json.Spelling) (m : Measured) : Prop where
  nonempty : m.schema.columns ≠ []
  wide : ∀ n, ColumnType.text n ∈ m.schema.types → 4 < n
  size_eq : m.schema.rowSize < 0x10000000000000000 → m.size.toNat = m.schema.rowSize
  remade : (ofColumns m.schema.columns).map measure = .ok m
  found_iff : ∀ name i, m.schema.indexOf name = .ok i ↔
    m.schema.NamedAt name i ∧ ∀ j, j < i → ¬ m.schema.NamedAt name j
  missing_iff : ∀ name e, m.schema.indexOf name = .error e ↔
    (∀ i, ¬ m.schema.NamedAt name i) ∧ e = .columnNotFound name
  reread : m.schema.rowSize < 0x10000000000000000 →
    (readBy? x (w.write m.schema.toJson)).map measure = some m

/-- What can be said of two schemas that were obtained. -/
structure Measured.Merging (a b : Measured) : Prop where
  remade : (ofColumns (a.schema.columns ++ b.schema.columns)).map measure = .ok (a.merge b)
  assoc : ∀ c, (a.merge b).merge c = a.merge (b.merge c)
  found_left : ∀ name i, a.schema.indexOf name = .ok i →
    (a.merge b).schema.indexOf name = .ok i
  found_right : ∀ name e, a.schema.indexOf name = .error e →
    (a.merge b).schema.indexOf name = (a.schema.columnCount + ·) <$> b.schema.indexOf name

/-- What texts are read as schemas, and which of those that are written. -/
structure Reading (x : Json.Lexis) (w : Json.Spelling) : Prop where
  read_iff : ∀ text s, readBy? x text = some s ↔ ∃ items, x.parse? text = some (.list items) ∧
    items.mapM Column.ofJson? = some s.columns ∧ ofColumns s.columns = .ok s
  written : ∀ columns : List Column, (∀ c ∈ columns, c.type.width < 0x10000000000000000) →
    readBy? x (w.write (.list (columns.map Column.toJson))) = (ofColumns columns).toOption

section

variable {x : Json.Lexis} {w : Json.Spelling}

theorem readBy?_write (hw : x.ReadsBack w)
    (h : ∀ c ∈ columns, c.type.width < 0x10000000000000000) :
    readBy? x (w.write (.list (columns.map Column.toJson))) = (ofColumns columns).toOption := by
  have hplain : (Json.list (columns.map Column.toJson)).Plain := by
    refine Json.plain_list (List.forall_mem_map.2 fun c hc => ?_)
    exact Column.plain_toJson (h c hc)
  rw [readBy?, Json.Lexis.parse?_write hw hplain]
  exact ofJson?_list h

example : Json.Spelling.compact.write (Schema.mk [⟨.text 32, none⟩]).toJson =
    "[\x7b\"fieldType\":\x7b\"text\":32\x7d,\"name\":null\x7d]" := by
  decide

theorem width_lt (h : s.rowSize < 0x10000000000000000) {c : Column} (hc : c ∈ s.columns) :
    c.type.width < 0x10000000000000000 :=
  Nat.lt_of_le_of_lt (width_le_rowSize (List.mem_map_of_mem hc)) h

theorem Reading.of_readsBack (hw : x.ReadsBack w) : Reading x w where
  read_iff text s := by
    rw [readBy?, Option.bind_eq_some_iff]
    constructor
    · rintro ⟨j, hj, hs⟩
      obtain ⟨items, rfl, h⟩ := ofJson?_eq_some_iff.1 hs
      exact ⟨items, hj, h⟩
    · rintro ⟨items, hj, h⟩
      exact ⟨.list items, hj, ofJson?_eq_some_iff.2 ⟨items, rfl, h⟩⟩
  written columns h := readBy?_write hw h

namespace Measured.Obtained

variable {a b : Measured}

theorem conforming (hw : x.ReadsBack w) (ha : a.Obtained) : a.Conforming x w where
  nonempty := ha.valid.1.nonempty
  wide n hn := ha.valid.1.typeValid _ hn
  size_eq := ha.toNat_size
  remade := ha.remade
  found_iff _ _ := indexOf_eq_ok_iff
  missing_iff _ _ := indexOf_eq_error_iff
  reread h := by
    have hmade : ofColumns a.schema.columns = .ok a.schema :=
      ofColumns_eq_ok_iff.2 ⟨ha.valid.1, rfl⟩
    have hread : readBy? x (w.write a.schema.toJson) = some a.schema :=
      (readBy?_write hw fun _ => width_lt h).trans (toOption_eq_some_iff.2 hmade)
    rw [hread]
    exact congrArg some ha.valid.2.symm

theorem merging (ha : a.Obtained) (hb : b.Obtained) : a.Merging b where
  remade := (ha.merged hb).remade
  assoc := merge_assoc a b
  found_left name i h := by
    show (a.schema.merge b.schema).indexOf name = _
    rw [indexOf_merge, h]
  found_right name e h := by
    show (a.schema.merge b.schema).indexOf name = _
    rw [indexOf_merge, h]

/-- However two schemas came about, each is the one that its columns make, merging them is making
one of the columns of both, and what is written of a schema is read back. -/
theorem valid_however_made (hw : x.ReadsBack w) (ha : a.Obtained) (hb : b.Obtained) :
    a.Conforming x w ∧ a.Merging b ∧ Reading x w :=
  ⟨ha.conforming hw, ha.merging hb, .of_readsBack hw⟩

/-- A name that both schemas have, a name that needs escapes, and a column without a name. -/
theorem reread_repeated_names :
    let s := Schema.mk [⟨.int, some "größe"⟩, ⟨.text 32, some "\"a\"\n"⟩]
    let t := Schema.mk [⟨.text 5, none⟩, ⟨.int, some "größe"⟩, ⟨.int, some "ort"⟩]
    let m := s.measure.merge t.measure
    Json.Lexis.standard.ReadsBack .compact ∧ s.measure.Obtained ∧ t.measure.Obtained ∧
      m.size.toNat = 49 ∧
      (parse? (Json.Spelling.compact.write m.schema.toJson)).map measure = some m ∧
      m.schema.indexOf "größe" = .ok 0 ∧ m.schema.indexOf "ort" = .ok 4 ∧
      parse? (Json.Spelling.compact.write (.list [Column.toJson ⟨.text 4, none⟩])) = none := by
  intro s t m
  have hs : s.measure.Obtained :=
    .named (show Schema.named [(.int, "größe"), (.text 32, "\"a\"\n")] = .ok s from rfl)
  have ht : t.measure.Obtained := .made (show ofColumns t.columns = .ok t from rfl)
  obtain ⟨-, hmerging, hreading⟩ := valid_however_made Json.Lexis.readsBack_compact hs ht
  obtain ⟨hconforming, -⟩ := valid_however_made Json.Lexis.readsBack_compact (hs.merged ht) hs
  have hsize : m.schema.rowSize < 0x10000000000000000 := by decide
  have hwidths : ∀ c ∈ [Column.mk (.text 4) none], c.type.width < 0x10000000000000000 := by decide
  refine ⟨Json.Lexis.readsBack_compact, hs, ht, hconforming.size_eq hsize, hconforming.reread hsize,
    hmerging.found_left "größe" 0 rfl, ?_, ?_⟩
  · exact hmerging.found_right "ort" (.columnNotFound "ort") rfl
  · exact hreading.written [⟨.text 4, none⟩] hwidths

end Measured.Obtained

end

end Schema

end RowStore
