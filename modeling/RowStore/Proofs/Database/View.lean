import Mathlib.Logic.Function.Basic
import RowStore.Database
import RowStore.Proofs.File.Tables
import RowStore.Proofs.Page.Cells

/-!
# What a database shows

The cache is forgotten except for the pages in it that differ from their files. What is left are
the stored pages and the drafts over them, each with the transaction that changed it last; a page
shows its draft if there is one, and what is stored otherwise.
-/

namespace RowStore

/-- A page that differs from its file, and the transaction that changed it last. -/
structure Draft where
  owner? : Option TxnId
  cells : Cells

namespace Page

def draft? (p : Page) : Option Draft :=
  match p.status with
  | .clean => none
  | .dirty owner? => some ⟨owner?, p.cells⟩

end Page

@[ext]
structure View where
  saved : PageId → Option Cells
  drafts : PageId → Option Draft

namespace View

variable {v : View} {page : PageId} {txn : TxnId} {cells : Cells}

def cells? (v : View) (page : PageId) : Option Cells :=
  ((v.drafts page).map Draft.cells).or (v.saved page)

/-- The values of the row in a place. -/
def row? (v : View) (spot : RowId) : Option (List Value) :=
  (v.cells? spot.page).bind fun cells => cells.at? spot.slot

/-- The values of the row that the file has in a place. -/
def savedRow? (v : View) (spot : RowId) : Option (List Value) :=
  (v.saved spot.page).bind fun cells => cells.at? spot.slot

/-- A transaction changes a page. -/
def write (v : View) (page : PageId) (txn : TxnId) (cells : Cells) : View :=
  { v with drafts := Function.update v.drafts page (some ⟨some txn, cells⟩) }

/-- The draft of a page goes to its file. -/
def flush (v : View) (page : PageId) : View :=
  match v.drafts page with
  | none => v
  | some draft =>
    ⟨Function.update v.saved page (some draft.cells), Function.update v.drafts page none⟩

/-- The draft of a page is given up. -/
def discard (v : View) (page : PageId) : View :=
  { v with drafts := Function.update v.drafts page none }

/-- A file gets a page without rows. -/
def grow (v : View) (page : PageId) (slots : Nat) : View :=
  { v with saved := Function.update v.saved page (some (Cells.blank slots)) }

theorem cells?_of_draft {draft : Draft} (h : v.drafts page = some draft) :
    v.cells? page = some draft.cells := by simp [cells?, h]

theorem cells?_of_no_draft (h : v.drafts page = none) : v.cells? page = v.saved page := by
  simp [cells?, h]

theorem cells?_write (v : View) (page : PageId) (txn : TxnId) (cells : Cells) (q : PageId) :
    (v.write page txn cells).cells? q = if q = page then some cells else v.cells? q := by
  simp only [cells?, write, Function.update_apply]
  split <;> rfl

/-- Flushing changes nothing that is shown. -/
@[simp] theorem cells?_flush (v : View) (page q : PageId) :
    (v.flush page).cells? q = v.cells? q := by
  unfold flush
  cases hd : v.drafts page with
  | none => rfl
  | some draft =>
    by_cases hq : q = page
    · subst hq
      simp [cells?, hd]
    · simp [cells?, hq]

theorem discard_of_no_draft (h : v.drafts page = none) : v.discard page = v :=
  View.ext rfl (Function.update_eq_iff.2 ⟨h.symm, fun _ _ => rfl⟩)

theorem drafts_of_cells?_eq_none (h : v.cells? page = none) : v.drafts page = none := by
  cases hd : v.drafts page with
  | none => rfl
  | some draft => simp [cells?_of_draft hd] at h

theorem cells?_grow (hnew : v.cells? page = none) (slots : Nat) (q : PageId) :
    (v.grow page slots).cells? q = if q = page then some (Cells.blank slots) else v.cells? q := by
  simp only [cells?, grow, Function.update_apply]
  split
  · next hq => simp [hq, drafts_of_cells?_eq_none hnew]
  · rfl

theorem row?_grow (hnew : v.cells? page = none) (slots : Nat) (spot : RowId) :
    (v.grow page slots).row? spot = v.row? spot := by
  simp only [row?, cells?_grow hnew]
  split
  · next hq => simp [hq, hnew, Cells.at?_blank]
  · rfl

theorem row?_write (h : v.cells? page = some cells) {slot : Nat} (hlt : slot < cells.length)
    (content : Option (List Value)) (spot : RowId) :
    (v.write page txn (cells.set slot content)).row? spot =
      if spot = ⟨page, slot⟩ then content else v.row? spot := by
  obtain ⟨q, i⟩ := spot
  simp only [row?, cells?_write, RowId.mk.injEq]
  by_cases hq : q = page
  · subst hq
    simp [h, Cells.at?_set hlt]
  · simp [hq]

end View

namespace Database

variable {σ : Type}

def view (db : Database σ) : View :=
  ⟨fun page => (db.catalog.stored? db.volume page).map Page.cells,
    fun page => (db.cache.frames.get? page).bind fun frame => frame.page.draft?⟩

/-- The rows of all tables, by their places. -/
def contents (db : Database σ) (spot : RowId) : Option (List Value) := db.view.row? spot

end Database

end RowStore
