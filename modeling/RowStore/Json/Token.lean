import RowStore.Json.Lexis

/-!
# JSON tokens

A text is cut into tokens by a machine that reads one character at a time. `Mode` is what the
machine is in the middle of: nothing, a word (a literal or a number), a quoted text, or an escape in
one, where a quote does not end the text. Words and quoted texts are only cut out here. What they
stand for is asked of a `Lexis`.
-/

namespace RowStore.Json

inductive Token where
  | openList
  | closeList
  | openRecord
  | closeRecord
  | comma
  | colon
  | null
  | bool (b : Bool)
  | natural (n : Nat)
  | number (spelling : String)
  | text (s : Option String)
  deriving DecidableEq, Repr

inductive Mode where
  | between
  | word (read : List Char)
  | text (read : List Char)
  | escape (read : List Char)
  deriving DecidableEq, Repr

def wordToken (x : Lexis) (word : List Char) : Option Token :=
  if word = "null".toList then some .null
  else if word = "true".toList then some (.bool true)
  else if word = "false".toList then some (.bool false)
  else (x.number word).map fun
    | some n => .natural n
    | none => .number (String.ofList word)

def isBlank (c : Char) : Bool := c = ' ' || c = '\n' || c = '\t' || c = '\r'

def mark? : Char → Option Token
  | '[' => some .openList
  | ']' => some .closeList
  | '{' => some .openRecord
  | '}' => some .closeRecord
  | ',' => some .comma
  | ':' => some .colon
  | _ => none

/-- The mode of the machine and the tokens behind it, the last one first. -/
structure Scan where
  mode : Mode
  done : List Token
  deriving DecidableEq, Repr

namespace Scan

/-- Read a character that stands outside of words and texts. -/
def outside (done : List Token) (c : Char) : Scan :=
  if isBlank c then ⟨.between, done⟩
  else if c = '"' then ⟨.text [], done⟩
  else
    match mark? c with
    | some t => ⟨.between, t :: done⟩
    | none => ⟨.word [c], done⟩

def endsWord (c : Char) : Bool := isBlank c || c = '"' || (mark? c).isSome

def step (x : Lexis) (s : Scan) (c : Char) : Option Scan :=
  match s.mode with
  | .between => some (outside s.done c)
  | .word read =>
    if endsWord c then do
      let t ← wordToken x read.reverse
      return outside (t :: s.done) c
    else some { s with mode := .word (c :: read) }
  | .text read =>
    if c = '"' then do
      let t ← x.text read.reverse
      return ⟨.between, .text t :: s.done⟩
    else if c = '\\' then some { s with mode := .escape (c :: read) }
    else some { s with mode := .text (c :: read) }
  | .escape read => some { s with mode := .text (c :: read) }

def finish (x : Lexis) (s : Scan) : Option (List Token) :=
  match s.mode with
  | .between => some s.done.reverse
  | .word read => (wordToken x read.reverse).map fun t => (t :: s.done).reverse
  | _ => none

end Scan

def tokens? (x : Lexis) (text : String) : Option (List Token) :=
  (text.toList.foldlM (Scan.step x) ⟨.between, []⟩).bind (Scan.finish x)

end RowStore.Json
