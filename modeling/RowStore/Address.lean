/-!
# Addresses

Where a row lives: tables are numbered by 32-bit words, a page is a table and a position in its
file, a row is a page and a slot. Page identifiers are ordered by table, then by position.
Transactions and the two ways of asking for a page are named here too.
-/

namespace RowStore

abbrev TableId := UInt32

structure PageId where
  table : TableId
  number : UInt32
  deriving DecidableEq, Repr

structure RowId where
  page : PageId
  slot : Nat
  deriving DecidableEq, Repr

structure TxnId where
  number : Nat
  deriving DecidableEq, Repr

inductive Access where
  | readOnly
  | readWrite
  deriving DecidableEq, Repr

namespace Access

def isWrite : Access → Bool
  | .readOnly => false
  | .readWrite => true

end Access

namespace PageId

/-- Where the page starts in a file of pages of `pageSize` bytes. -/
def offset (p : PageId) (pageSize : Nat) : Nat := p.number.toNat * pageSize

instance : Ord PageId :=
  ⟨fun p q => (compare p.table q.table).then (compare p.number q.number)⟩

/-- The text of a page identifier, with tables named by `showTable`. -/
def renderWith (showTable : TableId → String) (p : PageId) : String :=
  showTable p.table ++ ":" ++ toString p.number

def render (p : PageId) : String := p.renderWith toString

end PageId

namespace RowId

def render (r : RowId) : String := r.page.render ++ "#" ++ toString r.slot

end RowId

namespace TxnId

/-- The transaction numbers run on from one to the next. -/
def next (t : TxnId) : TxnId := ⟨t.number + 1⟩

/-- `count` transactions begun one after another, the first one `first`. -/
def series (first : TxnId) (count : Nat) : List TxnId :=
  (List.range count).map fun i => ⟨first.number + i⟩

end TxnId

end RowStore
