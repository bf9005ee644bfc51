import RowStore.Json.Reader
import RowStore.Schema

/-!
# Schemas as JSON

A schema is written as the list of its columns, a column as a record of its type and its name. A
column may also be read from the list of the two. Reading refuses what is no schema.

What is read as a column is spelled out here, where a library would derive it from the fields of a
column: the members of the record may stand in any order and with others among them, neither may
stand twice, and the name may be left out.
-/

namespace RowStore

namespace ColumnType

def toJson : ColumnType → Json
  | .int => .string "int"
  | .text w => .record [(some "text", .natural w)]

def ofJson? : Json → Option ColumnType
  | .text (some s) => if s = "int" then some .int else none
  | .record [(some kind, content)] =>
    if kind = "int" then
      match content with
      | .null => some .int
      | _ => none
    else if kind = "text" then content.size?.map .text
    else none
  | _ => none

end ColumnType

namespace Column

def nameToJson : Option String → Json
  | some s => .string s
  | none => .null

def nameOfJson? : Json → Option (Option String)
  | .null => some none
  | .text (some s) => some (some s)
  | _ => none

def toJson (c : Column) : Json :=
  .record [(some "fieldType", c.type.toJson), (some "name", nameToJson c.name)]

def ofJson? : Json → Option Column
  | .list [type, name] => do
    return ⟨← ColumnType.ofJson? type, ← nameOfJson? name⟩
  | .record members => do
    guard (Json.namesReadable members)
    let type ← ColumnType.ofJson? (← ← Json.member? "fieldType" members)
    match ← Json.member? "name" members with
    | some name => return ⟨type, ← nameOfJson? name⟩
    | none => return ⟨type, none⟩
  | _ => none

end Column

namespace Schema

def toJson (s : Schema) : Json := .list (s.columns.map Column.toJson)

def ofJson? : Json → Option Schema
  | .list items => do
    let columns ← items.mapM Column.ofJson?
    (ofColumns columns).toOption
  | _ => none

/-- Read a schema, its texts and numbers by `x`. -/
def readBy? (x : Json.Lexis) (text : String) : Option Schema := (x.parse? text).bind ofJson?

def parse? (text : String) : Option Schema := readBy? .standard text

end Schema

end RowStore
