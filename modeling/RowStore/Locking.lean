import RowStore.Error

/-!
# Locking

Before a page is handed out the lock manager is asked, and it is told when a transaction lets go.
A manager is a record of its four answers over a state of its own. `permissive` grants everything
and remembers nothing; a `Ledger` remembers who holds which page, refuses what it was told to
refuse, and writes down every call.
-/

namespace RowStore

structure LockManager (σ : Type) where
  acquire : TxnId → PageId → Access → σ → Except StorageError Unit × σ
  release : TxnId → PageId → σ → σ
  releaseAll : TxnId → σ → σ
  holds : TxnId → PageId → σ → Bool

def LockManager.permissive : LockManager Unit where
  acquire _ _ _ s := (.ok (), s)
  release _ _ s := s
  releaseAll _ s := s
  holds _ _ _ := false

inductive LockCall where
  | acquire (txn : TxnId) (page : PageId) (access : Access)
  | release (txn : TxnId) (page : PageId)
  | releaseAll (txn : TxnId)
  deriving DecidableEq, Repr

structure Ledger where
  held : List (TxnId × PageId)
  refused : List (PageId × Access)
  /-- The calls so far, the last one first. -/
  calls : List LockCall
  deriving DecidableEq, Repr

namespace Ledger

def empty : Ledger := ⟨[], [], []⟩

/-- From now on refuse a page in one mode. -/
def refuse (l : Ledger) (page : PageId) (access : Access) : Ledger :=
  { l with refused := (page, access) :: l.refused }

def note (l : Ledger) (call : LockCall) : Ledger := { l with calls := call :: l.calls }

def acquire (l : Ledger) (txn : TxnId) (page : PageId) (access : Access) :
    Except StorageError Unit × Ledger :=
  let l := l.note (.acquire txn page access)
  if (page, access) ∈ l.refused then (.error (.invalidOperation .lockDenied), l)
  else if (txn, page) ∈ l.held then (.ok (), l)
  else (.ok (), { l with held := (txn, page) :: l.held })

def release (l : Ledger) (txn : TxnId) (page : PageId) : Ledger :=
  { l.note (.release txn page) with held := l.held.filter (fun h => h ≠ (txn, page)) }

def releaseAll (l : Ledger) (txn : TxnId) : Ledger :=
  { l.note (.releaseAll txn) with held := l.held.filter (fun h => h.1 ≠ txn) }

def manager : LockManager Ledger where
  acquire txn page access l := l.acquire txn page access
  release txn page l := l.release txn page
  releaseAll txn l := l.releaseAll txn
  holds txn page l := decide ((txn, page) ∈ l.held)

end Ledger

end RowStore
