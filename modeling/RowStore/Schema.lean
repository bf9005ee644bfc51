import RowStore.Error
import RowStore.Total

/-!
# Schemas

The columns of a table in order. Two schemas describe the same rows when their column types agree
position by position; `types` is that view, and column names do not enter into it.
-/

namespace RowStore

structure Schema where
  columns : List Column
  deriving DecidableEq, Repr

namespace Schema

def types (s : Schema) : List ColumnType := s.columns.map Column.type

def columnCount (s : Schema) : Nat := s.columns.length

/-- The bytes that one row takes. -/
def rowSize (s : Schema) : Nat := total ColumnType.width s.types

/-- A text column needs room for more than the length of its text. -/
def TypeValid : ColumnType → Prop
  | .int => True
  | .text w => ColumnType.lengthBytes < w

instance : DecidablePred TypeValid
  | .int => inferInstanceAs (Decidable True)
  | .text w => inferInstanceAs (Decidable (ColumnType.lengthBytes < w))

structure Valid (s : Schema) : Prop where
  nonempty : s.columns ≠ []
  typeValid : ∀ t ∈ s.types, TypeValid t

/-- The first column, if any, that cannot be laid out. -/
def fault? (columns : List Column) : Option SchemaFault :=
  if columns = [] then some .noColumns
  else
    match columns.find? (fun c => ¬ TypeValid c.type) with
    | some c => some (.textTooNarrow c.type.width)
    | none => none

def ofColumns (columns : List Column) : Except StorageError Schema :=
  match fault? columns with
  | some fault => .error (.invalidSchema fault)
  | none => .ok ⟨columns⟩

def named (columns : List (ColumnType × String)) : Except StorageError Schema :=
  ofColumns (columns.map fun c => ⟨c.1, some c.2⟩)

def anonymous (types : List ColumnType) : Except StorageError Schema :=
  ofColumns (types.map fun t => ⟨t, none⟩)

/-- The columns of `s` before those of `t`. -/
def merge (s t : Schema) : Schema := ⟨s.columns ++ t.columns⟩

def column (s : Schema) (index : Nat) : Except StorageError Column :=
  match s.columns[index]? with
  | some c => .ok c
  | none => .error (.indexOutOfBounds index s.columnCount)

/-- The position of the first column of that name. -/
def indexOf (s : Schema) (name : String) : Except StorageError Nat :=
  match s.columns.findIdx? (fun c => c.name = some name) with
  | some i => .ok i
  | none => .error (.columnNotFound name)

def render (s : Schema) : String := ", ".intercalate (s.columns.map Column.render)

theorem length_types (s : Schema) : s.types.length = s.columnCount := List.length_map _

theorem fault?_eq_none_iff {columns : List Column} :
    fault? columns = none ↔ columns ≠ [] ∧ ∀ c ∈ columns, TypeValid c.type := by
  unfold fault?
  split
  · next hempty => simp [hempty]
  · next hne =>
    split
    · next c hc =>
      have hbad : ¬ TypeValid c.type := by simpa using List.find?_some hc
      exact iff_of_false nofun fun h => hbad (h.2 c (List.mem_of_find?_eq_some hc))
    · next hnone =>
      refine iff_of_true rfl ⟨hne, fun c hc => ?_⟩
      simpa using List.find?_eq_none.1 hnone c hc

theorem valid_iff {s : Schema} : s.Valid ↔ fault? s.columns = none := by
  rw [fault?_eq_none_iff]
  constructor
  · rintro ⟨hne, htypes⟩
    exact ⟨hne, by simpa [types] using htypes⟩
  · rintro ⟨hne, htypes⟩
    exact ⟨hne, by simpa [types] using htypes⟩

/-- The schemas that can be made are the valid ones. -/
theorem ofColumns_eq_ok_iff {columns : List Column} {s : Schema} :
    ofColumns columns = .ok s ↔ s.Valid ∧ s.columns = columns := by
  unfold ofColumns
  split
  · next fault hfault =>
    refine iff_of_false nofun ?_
    rintro ⟨hs, rfl⟩
    rw [valid_iff.1 hs] at hfault
    cases hfault
  · next hnone =>
    constructor
    · intro h
      obtain rfl := Except.ok.inj h
      exact ⟨valid_iff.2 hnone, rfl⟩
    · rintro ⟨-, rfl⟩
      rfl

@[simp] theorem types_merge (s t : Schema) : (s.merge t).types = s.types ++ t.types := by
  simp [types, merge]

@[simp] theorem rowSize_merge (s t : Schema) :
    (s.merge t).rowSize = s.rowSize + t.rowSize := by
  simp [rowSize]

theorem width_le_rowSize {s : Schema} {t : ColumnType} (h : t ∈ s.types) : t.width ≤ s.rowSize :=
  le_total_of_mem h

end Schema

end RowStore
