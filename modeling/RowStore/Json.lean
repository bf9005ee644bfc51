/-!
# JSON values

The syntax tree of a JSON text. A text whose escapes name half of a surrogate pair is well-formed
but stands for no string; it is kept as `none`, so that only a reader who wants its contents need
refuse it. A number written as plain digits is a natural number, any other keeps its spelling.
-/

namespace RowStore

inductive Json where
  | null
  | bool (b : Bool)
  | natural (n : Nat)
  | number (spelling : String)
  | text (s : Option String)
  | list (items : List Json)
  | record (members : List (Option String × Json))

namespace Json

def string (s : String) : Json := .text (some s)

/-- A member of a record with readable names: the value of `name` if it is given, and a refusal if
it is given twice. -/
def member? (name : String) (members : List (Option String × Json)) : Option (Option Json) :=
  match members.filter (fun m => m.1 = some name) with
  | [] => some none
  | [m] => some (some m.2)
  | _ => none

def namesReadable (members : List (Option String × Json)) : Bool :=
  members.all (fun m => m.1.isSome)

/-- The sizes that a 64-bit count can hold. -/
def size? : Json → Option Nat
  | .natural n => if n < 0x10000000000000000 then some n else none
  | _ => none

end Json

end RowStore
