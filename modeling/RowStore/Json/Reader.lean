import RowStore.Json
import RowStore.Json.Token

/-!
# Reading JSON

Tokens are put together into a value by a machine with a stack. The stack holds the lists and
records that are still open, the innermost first, so texts may be nested to any depth. Like
`Lexis.standard`, the machine stands in for a general library.
-/

namespace RowStore.Json

/-- An open list with its items so far, or an open record with its members so far and the name of
the member that is being read; the last one read stands first. -/
inductive Open where
  | list (items : List Json)
  | record (members : List (Option String × Json)) (name : Option String)

/-- What has just been read, and so what may follow. -/
inductive Focus where
  | due
  | listOpened
  | recordOpened
  | nameDue (members : List (Option String × Json))
  | nameRead (members : List (Option String × Json)) (name : Option String)
  | complete (value : Json)

structure Build where
  stack : List Open
  focus : Focus

namespace Build

/-- Read the first token of a value. -/
def start (stack : List Open) : Token → Option Build
  | .openList => some ⟨stack, .listOpened⟩
  | .openRecord => some ⟨stack, .recordOpened⟩
  | .null => some ⟨stack, .complete .null⟩
  | .bool b => some ⟨stack, .complete (.bool b)⟩
  | .natural n => some ⟨stack, .complete (.natural n)⟩
  | .number spelling => some ⟨stack, .complete (.number spelling)⟩
  | .text s => some ⟨stack, .complete (.text s)⟩
  | _ => none

/-- Read the token behind a complete value: a comma, or the end of what encloses it. -/
def proceed (value : Json) : List Open → Token → Option Build
  | .list items :: outer, .comma => some ⟨.list (value :: items) :: outer, .due⟩
  | .list items :: outer, .closeList => some ⟨outer, .complete (.list (value :: items).reverse)⟩
  | .record members name :: outer, .comma => some ⟨outer, .nameDue ((name, value) :: members)⟩
  | .record members name :: outer, .closeRecord =>
    some ⟨outer, .complete (.record ((name, value) :: members).reverse)⟩
  | _, _ => none

def step (b : Build) (t : Token) : Option Build :=
  match b.focus with
  | .due => start b.stack t
  | .listOpened =>
    if t = .closeList then some ⟨b.stack, .complete (.list [])⟩
    else start (.list [] :: b.stack) t
  | .recordOpened =>
    match t with
    | .closeRecord => some ⟨b.stack, .complete (.record [])⟩
    | .text name => some ⟨b.stack, .nameRead [] name⟩
    | _ => none
  | .nameDue members =>
    match t with
    | .text name => some ⟨b.stack, .nameRead members name⟩
    | _ => none
  | .nameRead members name =>
    if t = .colon then some ⟨.record members name :: b.stack, .due⟩ else none
  | .complete value => proceed value b.stack t

def finish (b : Build) : Option Json :=
  match b.stack, b.focus with
  | [], .complete value => some value
  | _, _ => none

end Build

def ofTokens? (tokens : List Token) : Option Json :=
  (tokens.foldlM Build.step ⟨[], .due⟩).bind Build.finish

/-- Read a value, its texts and numbers by `x`. -/
def Lexis.parse? (x : Lexis) (text : String) : Option Json := (tokens? x text).bind ofTokens?

def parse? (text : String) : Option Json := Lexis.standard.parse? text

end RowStore.Json
