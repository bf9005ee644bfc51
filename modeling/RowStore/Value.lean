import RowStore.Error

/-!
# Values

A value is a number or a text. A number is stored as its four bytes in two's complement, most
significant first; a text as its length, its UTF-8 bytes, and zeros up to the width of the column.
`Value.check` says which values a column takes, and `ColumnType.decode` reads a value back from
the front of a byte string.
-/

namespace RowStore

inductive Value where
  | int (n : Int32)
  | text (s : String)
  deriving DecidableEq

namespace Value

def kind : Value → String
  | .int _ => "int"
  | .text _ => "text"

def render : Value → String
  | .int n => toString n.toInt
  | .text s => s

/-- Refuse a value that the column at `index` cannot take. -/
def check (index : Nat) (type : ColumnType) (v : Value) : Except StorageError Unit :=
  match type, v with
  | .int, .int _ => .ok ()
  | .text w, .text s =>
    let size := (Utf8.encode s).length
    let max := (ColumnType.text w).capacity
    if max < size then .error (.valueTooLarge size max) else .ok ()
  | _, _ => .error (.typeMismatch index type v.kind)

/-- The bytes of a value before they are brought to the width of its column. A text that is too
long is cut, and a value of the other kind leaves nothing. -/
def payload (type : ColumnType) (v : Value) : Bytes :=
  match type, v with
  | .int, .int n => Bytes.ofWord n.toUInt32
  | .text w, .text s =>
    let kept := (Utf8.encode s).take (ColumnType.text w).capacity
    Bytes.ofWord kept.length.toUInt32 ++ kept
  | _, _ => []

def encode (type : ColumnType) (v : Value) : Bytes := Bytes.fit type.width (v.payload type)

@[simp] theorem length_encode (type : ColumnType) (v : Value) :
    (v.encode type).length = type.width := by simp [encode]

end Value

namespace ColumnType

/-- The value of a new row: zero or the empty text. -/
def blank : ColumnType → Value
  | .int => .int 0
  | .text _ => .text ""

/-- Read the text that stands behind its length. -/
def decodeText (width : Nat) (bytes : Bytes) : Except StorageError Value :=
  let length := (Bytes.toWord bytes).toNat
  let capacity := (ColumnType.text width).capacity
  if capacity < length then .error (.decode (.textTooLong length capacity))
  else
    match Utf8.decode ((bytes.drop lengthBytes).take length) with
    | .ok s => .ok (.text s)
    | .error fault => .error (.decode (.notUtf8 fault))

/-- Read one value from the front of `bytes`; what follows it is ignored. -/
def decode (type : ColumnType) (bytes : Bytes) : Except StorageError Value :=
  if bytes.length < type.width then
    .error (.decode (.valueTruncated type.width bytes.length))
  else
    match type with
    | .int => .ok (.int (Bytes.toWord bytes).toInt32)
    | .text w =>
      if w < lengthBytes then .error (.decode (.noRoomForLength w)) else decodeText w bytes

end ColumnType

end RowStore
