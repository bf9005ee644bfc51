import RowStore.Address
import RowStore.Column
import RowStore.Text.Utf8

/-!
# Errors

Every way an operation can fail, by cause. `StorageError.message` words each of them; the wording
shows table numbers, and `messageWith` lets a caller show tables by another name.
-/

namespace RowStore

/-- Why bytes are no value, no page, or no file of pages. -/
inductive DecodeFault where
  | valueTruncated (needed available : Nat)
  | noRoomForLength (width : Nat)
  | textTooLong (length capacity : Nat)
  | notUtf8 (fault : Utf8.Fault)
  | headerTruncated (page : PageId) (needed available : Nat)
  | slotTruncated (page : PageId) (slot offset available : Nat)
  | unevenFile (length pageSize : Nat)
  deriving DecidableEq, Repr

inductive SchemaFault where
  | noColumns
  | textTooNarrow (width : Nat)
  | rowTooLarge (rowSize pageSize : Nat)
  deriving DecidableEq, Repr

/-- Why the file system failed. `refused` stands for whatever the operating system itself reports,
and `injected` for a failure that was asked for. -/
inductive IoFault where
  | refused
  | shortRead
  | nulInName
  | injected (write : Bool)
  deriving DecidableEq, Repr

inductive OperationFault where
  | foreignPage (page : PageId) (table : TableId)
  | lockDenied
  deriving DecidableEq, Repr

inductive SettingsFault where
  | malformed
  | pageSize
  | cacheCapacity
  deriving DecidableEq, Repr

inductive TableRef where
  | number (id : TableId)
  | name (name : String)
  deriving DecidableEq, Repr

inductive StorageError where
  | io (fault : IoFault)
  | schemaMismatch
  | pageFull (page : PageId)
  | rowNotFound
  | cacheExhausted
  | decode (fault : DecodeFault)
  | typeMismatch (index : Nat) (expected : ColumnType) (found : String)
  | valueTooLarge (size max : Nat)
  | indexOutOfBounds (index count : Nat)
  | columnNotFound (name : String)
  | tableNotFound (table : TableRef)
  | endOfRows
  | invalidSchema (fault : SchemaFault)
  | invalidOperation (fault : OperationFault)
  | invalidSettings (fault : SettingsFault)
  /-- The call would wait or retry for ever. -/
  | stalled
  deriving DecidableEq, Repr

def DecodeFault.messageWith (showTable : TableId → String) : DecodeFault → String
  | .valueTruncated needed available =>
    "field needs " ++ toString needed ++ " bytes, only " ++ toString available ++ " available"
  | .noRoomForLength width =>
    "text width " ++ toString width ++ " cannot hold a length prefix"
  | .textTooLong length capacity =>
    "text length " ++ toString length ++ " exceeds field capacity " ++ toString capacity
  | .notUtf8 fault => "invalid UTF-8 in text field: " ++ fault.message
  | .headerTruncated page needed available =>
    "page " ++ page.renderWith showTable ++ " truncated: header needs " ++ toString needed ++
      " bytes, got " ++ toString available
  | .slotTruncated page slot offset available =>
    "page " ++ page.renderWith showTable ++ " truncated at slot " ++ toString slot ++
      " (offset " ++ toString offset ++ ", length " ++ toString available ++ ")"
  | .unevenFile length pageSize =>
    "file length " ++ toString length ++ " is not a multiple of page size " ++ toString pageSize

def SchemaFault.message : SchemaFault → String
  | .noColumns => "schema needs at least one field"
  | .textTooNarrow width =>
    "text field width " ++ toString width ++ " must exceed " ++
      toString ColumnType.lengthBytes ++ " bytes"
  | .rowTooLarge rowSize pageSize =>
    "tuple size " ++ toString rowSize ++ " does not fit in a " ++ toString pageSize ++ " byte page"

def IoFault.message : IoFault → String
  | .refused => "refused by the operating system"
  | .shortRead => "failed to fill whole buffer"
  | .nulInName => "file name contained an unexpected NUL byte"
  | .injected false => "injected read fault"
  | .injected true => "injected write fault"

def OperationFault.messageWith (showTable : TableId → String) : OperationFault → String
  | .foreignPage page table =>
    "page " ++ page.renderWith showTable ++ " does not belong to table " ++ showTable table
  | .lockDenied => "lock denied"

def SettingsFault.message : SettingsFault → String
  | .malformed => "malformed settings"
  | .pageSize => "page size must be positive"
  | .cacheCapacity => "cache capacity must be positive"

namespace StorageError

def messageWith (showTable : TableId → String) : StorageError → String
  | .io fault => "I/O error: " ++ fault.message
  | .schemaMismatch => "Schema mismatch: tuple schema differs from table schema"
  | .pageFull page => "Page " ++ page.renderWith showTable ++ " is full"
  | .rowNotFound => "Tuple not found"
  | .cacheExhausted => "Page cache exhausted: every resident page is dirty"
  | .decode fault => "Decode error: " ++ fault.messageWith showTable
  | .typeMismatch index expected found =>
    "Type mismatch at field " ++ toString index ++ ": expected " ++ expected.render ++
      ", found " ++ found
  | .valueTooLarge size max =>
    "Value too large: " ++ toString size ++ " bytes (max: " ++ toString max ++ ")"
  | .indexOutOfBounds index count =>
    "Field index " ++ toString index ++ " out of bounds (count: " ++ toString count ++ ")"
  | .columnNotFound name => "Field not found: " ++ name
  | .tableNotFound (.number id) => "Table not found: " ++ showTable id
  | .tableNotFound (.name name) => "Table not found: " ++ name
  | .endOfRows => "No more elements"
  | .invalidSchema fault => "Invalid schema: " ++ fault.message
  | .invalidOperation fault => "Invalid operation: " ++ fault.messageWith showTable
  | .invalidSettings fault => "Invalid configuration: " ++ fault.message
  | .stalled => "The operation makes no progress"

def message (e : StorageError) : String := e.messageWith toString

end StorageError

end RowStore
