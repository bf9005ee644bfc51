import RowStore.Schema
import RowStore.Value

/-!
# Rows

A row binds one value to each column of a schema. A row that is stored in a page also knows its
place; `Same` compares rows without it, and without the names of their columns.
-/

namespace RowStore

structure Row where
  schema : Schema
  values : List Value
  place : Option RowId
  deriving DecidableEq

namespace Row

/-- Check the values from position `index` on against the types that stand there. -/
def checkFrom (index : Nat) : List ColumnType → List Value → Except StorageError Unit
  | t :: ts, v :: vs => do
    v.check index t
    checkFrom (index + 1) ts vs
  | _, _ => .ok ()

/-- Each column takes the value that stands at its position. -/
structure Valid (r : Row) : Prop where
  length_eq : r.values.length = r.schema.columnCount
  check : ∀ (i : Nat) (t : ColumnType) (v : Value),
    r.schema.types[i]? = some t → r.values[i]? = some v → v.check i t = .ok ()

def ofValues (schema : Schema) (values : List Value) : Except StorageError Row :=
  if values.length ≠ schema.columnCount then
    .error (.indexOutOfBounds values.length schema.columnCount)
  else do
    checkFrom 0 schema.types values
    return ⟨schema, values, none⟩

def value (r : Row) (index : Nat) : Except StorageError Value :=
  match r.values[index]? with
  | some v => .ok v
  | none => .error (.indexOutOfBounds index r.values.length)

def setValue (r : Row) (index : Nat) (v : Value) : Except StorageError Row := do
  let c ← r.schema.column index
  v.check index c.type
  return { r with values := r.values.set index v }

/-- Bind a row to another schema, with a blank value in each column. -/
def blank (schema : Schema) : Row := ⟨schema, schema.types.map ColumnType.blank, none⟩

def Same (r s : Row) : Prop := r.schema.types = s.schema.types ∧ r.values = s.values

instance (r s : Row) : Decidable (Same r s) :=
  inferInstanceAs (Decidable (_ ∧ _))

def encode (r : Row) : Bytes :=
  (List.zipWith Value.encode r.schema.types r.values).flatten

/-- Read one value for each type, each behind the one before it. -/
def decodeValues : List ColumnType → Bytes → Except StorageError (List Value)
  | [], _ => .ok []
  | t :: ts, bytes => do
    let v ← t.decode bytes
    let vs ← decodeValues ts (bytes.drop t.width)
    return v :: vs

def decode (schema : Schema) (bytes : Bytes) : Except StorageError Row := do
  return ⟨schema, ← decodeValues schema.types bytes, none⟩

def render (r : Row) : String := "\t".intercalate (r.values.map Value.render)

end Row

end RowStore
