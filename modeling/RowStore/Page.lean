import RowStore.Page.Layout
import RowStore.Page.SlotMap
import RowStore.Row

/-!
# Pages

A page in memory: its slot map, its slots, whether it differs from its stored image, and the image
it had before the modification in progress began. `decode` reads a page from its image and
`encode` writes the image back; rows read from a page know their place in it.
-/

namespace RowStore

/-- Whether a page was modified. A modified page remembers the transaction that touched it last, if
one was named. A flag and an optional owner would also allow an owner of a clean page, which no
operation leaves behind: to mark a page clean is to forget its owner. Here such a page cannot be
written down, so that only a dirty page has an owner is a fact of the type. -/
inductive Status where
  | clean
  | dirty (owner? : Option TxnId)
  deriving DecidableEq, Repr

structure Page where
  id : PageId
  schema : Schema
  layout : Layout
  header : SlotMap
  slots : List (Option Row)
  status : Status
  before : Bytes
  deriving DecidableEq

namespace Page

def isDirty (p : Page) : Bool :=
  match p.status with
  | .clean => false
  | .dirty _ => true

def dirtier? (p : Page) : Option TxnId :=
  match p.status with
  | .clean => none
  | .dirty owner? => owner?

def dirtiedBy (p : Page) (txn : TxnId) : Bool := p.dirtier? = some txn

def slotCount (p : Page) : Nat := p.layout.slots

def emptySlots (p : Page) : Nat := p.layout.slots - p.header.used

/-- The row in a slot; an empty slot and one past the last hold none. -/
def row? (p : Page) (slot : Nat) : Option Row := (p.slots[slot]?).join

/-- The rows of the page in slot order. -/
def rows (p : Page) : List Row := p.slots.filterMap fun r => r

def slotImage (layout : Layout) : Option Row → Bytes
  | some r => r.encode
  | none => Bytes.zeros layout.rowSize

def encode (p : Page) : Bytes :=
  Bytes.fit p.layout.pageSize (p.header.bits ++ p.slots.flatMap (slotImage p.layout))

/-- Take the present contents as what the page goes back to. -/
def snapshot (p : Page) : Page := { p with before := p.encode }

/-- Read the row of an occupied slot. -/
def decodeRow (page : PageId) (schema : Schema) (slot : Nat) (bytes : Bytes) :
    Except StorageError Row := do
  return { ← Row.decode schema bytes with place := some ⟨page, slot⟩ }

/-- Read the slots from `slot` on, of which `body` is what is left of an image of `length` bytes
and the flags tell the occupied ones. The bytes of a slot must be there even if it is empty. -/
def decodeSlots (page : PageId) (schema : Schema) (layout : Layout) (length : Nat) :
    Nat → List Bool → Bytes → Except StorageError (List (Option Row))
  | _, [], _ => .ok []
  | slot, occupied :: flags, body =>
    match Bytes.window? body 0 layout.rowSize with
    | none => .error (.decode (.slotTruncated page slot (layout.slotOffset slot) length))
    | some bytes => do
      let r ← if occupied then some <$> decodeRow page schema slot bytes else pure none
      let rs ← decodeSlots page schema layout length (slot + 1) flags (body.drop layout.rowSize)
      return r :: rs

def decode (page : PageId) (schema : Schema) (pageSize : Nat) (image : Bytes) :
    Except StorageError Page := do
  let layout ← Layout.ofSchema schema pageSize
  match SlotMap.read? image layout.slots with
  | none => throw (.decode (.headerTruncated page layout.headerSize image.length))
  | some header =>
    let slots ← decodeSlots page schema layout image.length 0 header.flags
      (image.drop layout.headerSize)
    return snapshot ⟨page, schema, layout, header, slots, .clean, []⟩

/-- The page that an image of zeros stands for. -/
def empty (page : PageId) (schema : Schema) (pageSize : Nat) : Except StorageError Page :=
  decode page schema pageSize (Bytes.zeros pageSize)

/-- The page as it was at its last snapshot. -/
def beforeImage (p : Page) : Except StorageError Page :=
  decode p.id p.schema p.layout.pageSize p.before

/-- Store a row in the lowest empty slot. The row comes back knowing its place. -/
def insert (p : Page) (r : Row) : Except StorageError (Page × Row) :=
  if r.schema.types ≠ p.schema.types then .error .schemaMismatch
  else
    match p.header.lowestEmpty? with
    | none => .error (.pageFull p.id)
    | some slot =>
      let placed := { r with place := some ⟨p.id, slot⟩ }
      .ok ({ p with header := p.header.set slot, slots := p.slots.set slot (some placed) }, placed)

/-- Whether a slot holds a row that is the same as `r`. -/
def holds (r : Row) : Option Row → Bool
  | some s => decide (s.Same r)
  | none => false

/-- The slot that the row names, if it lies on this page and holds the same row. -/
def hintedSlot? (p : Page) (r : Row) : Option Nat :=
  match r.place with
  | some spot => if spot.page = p.id ∧ holds r (p.row? spot.slot) then some spot.slot else none
  | none => none

/-- The slot to vacate for a row: the one it names, else the lowest that holds the same row. -/
def slotOf? (p : Page) (r : Row) : Option Nat :=
  (p.hintedSlot? r).or (p.slots.findIdx? (holds r))

/-- Remove one stored copy of a row. The row comes back without a place. -/
def delete (p : Page) (r : Row) : Except StorageError (Page × Row) :=
  match p.slotOf? r with
  | none => .error .rowNotFound
  | some slot =>
    .ok ({ p with header := p.header.clear slot, slots := p.slots.set slot none },
      { r with place := none })

/-- Note a modification. A clean page takes a snapshot first. -/
def markDirty (p : Page) (owner? : Option TxnId) : Page :=
  { (if p.isDirty then p else p.snapshot) with status := .dirty owner? }

def markClean (p : Page) : Page := { p with status := .clean }

end Page

end RowStore
