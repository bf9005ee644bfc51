/-!
# Columns

A column holds 32-bit signed numbers or texts of bounded length. Every value of a column takes the
same number of bytes, its width. The width of a text column includes the four bytes of the length
that stands in front of the text.
-/

namespace RowStore

inductive ColumnType where
  | int
  | text (width : Nat)
  deriving DecidableEq, Repr

namespace ColumnType

/-- The bytes that hold the length of a text. -/
def lengthBytes : Nat := 4

def defaultText : ColumnType := .text (128 + lengthBytes)

def width : ColumnType → Nat
  | .int => 4
  | .text w => w

/-- The most bytes that a text of this column may have. -/
def capacity : ColumnType → Nat
  | .int => 0
  | .text w => w - lengthBytes

def render : ColumnType → String
  | .int => "INT"
  | .text w => "TEXT(" ++ toString w ++ ")"

end ColumnType

structure Column where
  type : ColumnType
  name : Option String
  deriving DecidableEq, Repr

namespace Column

def render (c : Column) : String := c.type.render ++ "(" ++ c.name.getD "" ++ ")"

end Column

end RowStore
