import RowStore.Address
import RowStore.Keyed

/-!
# Ranking of pages by use

The pages in memory in the order in which they are given up: least used first, and among equally
used ones the one whose last access is oldest. The standing of each page is kept twice, once under
its page and once in the sorted list; an access takes the old standing out of the list before it
puts in the new one.

Uses and times are natural numbers. None is greater than the number of accesses
(`Ranking.KeepsLog`), so words of 64 bits would do as long as there are fewer than `2 ^ 64` of them.
-/

namespace RowStore

/-- How often a page was used, when it was used last, and which page it is. -/
structure Standing where
  uses : Nat
  lastUse : Nat
  page : PageId
  deriving DecidableEq, Repr

namespace Standing

/-- The order of giving up: by uses, then by last use, then by page. -/
def Before (a b : Standing) : Prop :=
  a.uses < b.uses ∨ a.uses = b.uses ∧
    (a.lastUse < b.lastUse ∨ a.lastUse = b.lastUse ∧ compare a.page b.page = .lt)

instance (a b : Standing) : Decidable (Before a b) := inferInstanceAs (Decidable (_ ∨ _))

/-- Put a standing in front of the first one that it does not come after. -/
def insert (a : Standing) : List Standing → List Standing
  | [] => [a]
  | b :: rest =>
    if a = b then b :: rest
    else if a.Before b then a :: b :: rest
    else b :: insert a rest

end Standing

structure Ranking where
  standings : Keyed PageId Standing
  order : List Standing
  clock : Nat
  deriving DecidableEq

namespace Ranking

def empty : Ranking := ⟨Keyed.empty, [], 0⟩

def uses? (r : Ranking) (page : PageId) : Option Nat := (r.standings.get? page).map Standing.uses

/-- Count one use of a page, now. -/
def access (r : Ranking) (page : PageId) : Ranking :=
  let now := r.clock + 1
  match r.standings.get? page with
  | some old =>
    let new : Standing := ⟨old.uses + 1, now, page⟩
    ⟨r.standings.put page new, new.insert (r.order.erase old), now⟩
  | none =>
    let new : Standing := ⟨1, now, page⟩
    ⟨r.standings.put page new, new.insert r.order, now⟩

def remove (r : Ranking) (page : PageId) : Ranking :=
  match r.standings.get? page with
  | some old => { r with standings := r.standings.erase page, order := r.order.erase old }
  | none => r

/-- The pages in the order in which they are given up. -/
def candidates (r : Ranking) : List PageId := r.order.map Standing.page

def size (r : Ranking) : Nat := r.standings.size

end Ranking

end RowStore
