import RowStore.Proofs.Database.History

/-!
# Fetching one page again and again

When every lock is granted, fetching a page a number of times comes to one of two things. As long as
the fetches fail they change nothing; once one has succeeded the page is resident, and all later
ones get the same copy. So however often a page is fetched, it is installed once and one other page
is given up for it, at most.
-/

namespace RowStore

/-- What a page is fetched for, and what is locked for writing when it looks for room. -/
structure Fetcher where
  txn : TxnId
  access : Access
  pinned : List Handle

namespace Database

variable {σ : Type}

/-- Fetch a page again and again. -/
def fetchInTurn (locking : LockManager σ) (page : PageId) :
    List Fetcher → Database σ → List (Except StorageError Frame) × Database σ
  | [], db => ([], db)
  | f :: rest, db =>
    let (answer, db) := (fetch locking f.txn page f.access f.pinned).run db
    let (answers, db) := fetchInTurn locking page rest db
    (answer :: answers, db)

end Database

/-- The manager grants every lock. -/
def LockManager.Grants {σ : Type} (locking : LockManager σ) : Prop :=
  ∀ txn page access locks, (locking.acquire txn page access locks).1 = .ok ()

theorem LockManager.Grants.acquire_eq {σ : Type} {locking : LockManager σ} (h : locking.Grants)
    (txn : TxnId) (page : PageId) (access : Access) (locks : σ) :
    locking.acquire txn page access locks =
      (.ok (), (locking.acquire txn page access locks).2) :=
  Prod.ext (h txn page access locks) rfl

/-- The same but for the state of the lock manager. -/
def Database.SameButLocks {σ : Type} (db base : Database σ) : Prop :=
  db = { base with locks := db.locks }

/-- A page is resident that was fetched, at the cost of one other page at most. -/
structure Database.Arrived {σ : Type} (page : PageId) (db base : Database σ) (frame : Frame) :
    Prop where
  resident : base.cache.frames.get? page = some frame
  loading_eq : base.cache.loading = db.cache.loading
  evictions_le : base.cache.evictions ≤ db.cache.evictions + 1
  serials_le : base.cache.nextSerial ≤ db.cache.nextSerial + 1
  others : ∃ victim, ∀ q, q ≠ page → q ≠ victim →
    base.cache.frames.get? q = db.cache.frames.get? q

/-- What has come of fetching a page a number of times: every fetch failed and nothing changed, or
the page is resident and all fetches that succeeded got this copy. -/
inductive Database.Sought {σ : Type} (page : PageId) (db : Database σ) :
    List (Except StorageError Frame) → Database σ → Prop
  | failed {answers : List (Except StorageError Frame)} {base : Database σ} :
      (∀ frame, .ok frame ∉ answers) → base.SameButLocks db → Sought page db answers base
  | found {answers : List (Except StorageError Frame)} {base : Database σ} (frame : Frame) :
      Arrived page db base frame → (∀ f, .ok f ∈ answers → f.handle = frame.handle) →
      Sought page db answers base

namespace Database

variable {σ : Type} {locking : LockManager σ} {page : PageId} {db base base' : Database σ}
  {answer : Except StorageError Frame} {answers : List (Except StorageError Frame)}

theorem SameButLocks.refl (db : Database σ) : db.SameButLocks db := rfl

theorem SameButLocks.withLocks (h : base.SameButLocks db) (locks : σ) :
    SameButLocks { base with locks := locks } db := by
  rw [SameButLocks, h]

theorem SameButLocks.withCache {c : Cache} (h : db.SameButLocks { base with cache := c })
    (cache : Cache) (locks : σ) :
    SameButLocks { db with cache := cache } { base with cache := cache, locks := locks } := by
  rw [SameButLocks, h]

theorem SameButLocks.cache_eq (h : base.SameButLocks db) : base.cache = db.cache := by
  rw [h]

/-- A page that has arrived stays, with the changes that a fetch makes to its frame. -/
theorem Arrived.served {frame : Frame} (h : Arrived page db base frame) (txn : TxnId)
    (access : Access) (locks : σ) :
    Arrived page db { base with locks := locks, cache := (base.cache.request txn page access).2 }
      { frame with page := Cache.touch txn access frame.page } := by
  have hget := Cache.get?_request txn access h.resident
  have hafter := Cache.request_of_resident txn access h.resident
  obtain ⟨victim, hothers⟩ := h.others
  refine ⟨?_, ?_, ?_, ?_, victim, ?_⟩
  · rw [hget, if_pos rfl]
  · rw [hafter]
    exact h.loading_eq
  · rw [hafter]
    exact h.evictions_le
  · rw [hafter]
    exact h.serials_le
  · intro q hne hkept
    rw [hget, if_neg hne]
    exact hothers q hne hkept

/-- A page arrives that is read when nothing has changed yet. -/
theorem Arrived.installed {roomy : Cache} {pinned : List Handle} (h : base.SameButLocks db)
    (hroom : base.cache.makeRoom pinned = .ok roomy) (page : PageId) (p : Page) (locks : σ) :
    Arrived page db { base with locks := locks, cache := (roomy.install page p).2 }
      (roomy.install page p).1 := by
  have hcache := h.cache_eq
  have hget := Cache.get?_install roomy page p
  rcases Cache.makeRoom_eq_ok hroom with ⟨-, rfl⟩ | ⟨victim, frame, -, -, rfl⟩
  · refine ⟨?_, ?_, ?_, ?_, page, ?_⟩
    · exact (hget page).trans (if_pos rfl)
    · exact congrArg (fun c => c.loading) hcache
    · exact Nat.le_succ_of_le (Nat.le_of_eq (congrArg (fun c => c.evictions) hcache))
    · exact Nat.le_of_eq (congrArg (fun c => c.nextSerial + 1) hcache)
    · intro q hne _
      rw [hget, if_neg hne, hcache]
  · refine ⟨?_, ?_, ?_, ?_, victim, ?_⟩
    · exact (hget page).trans (if_pos rfl)
    · exact congrArg (fun c => c.loading) hcache
    · exact Nat.le_of_eq (congrArg (fun c => c.evictions + 1) hcache)
    · exact Nat.le_of_eq (congrArg (fun c => c.nextSerial + 1) hcache)
    · intro q hne hkept
      rw [hget, if_neg hne, ← hcache]
      exact (Cache.get?_drop _ _ _).trans (if_neg hkept)

theorem Sought.fetch {f : Fetcher} (h : Sought page db answers base) (hgrants : locking.Grants)
    (hrun : (fetch locking f.txn page f.access f.pinned).run base = (answer, base')) :
    Sought page db (answers ++ [answer]) base' := by
  cases h with
  | failed hfailed hsame =>
    rcases fetch_cases hrun with ⟨e, rfl, hafter⟩ | ⟨frame, hf, rfl, hafter⟩ |
      ⟨p, roomy, -, -, hroom, rfl, hafter⟩
    · refine .failed ?_ ?_
      · simpa using hfailed
      · rw [hafter]
        exact hsame.withLocks _
    · have harrived : Arrived page db base frame := by
        refine ⟨hf, ?_, ?_, ?_, page, ?_⟩ <;> rw [hsame.cache_eq]
        · exact Nat.le_succ _
        · exact Nat.le_succ _
        · exact fun _ _ _ => rfl
      have hserved := harrived.served f.txn f.access base'.locks
      rw [← hafter] at hserved
      refine .found _ hserved ?_
      intro g hg
      obtain rfl : g = { frame with page := Cache.touch f.txn f.access frame.page } := by
        simpa [hfailed] using hg
      rfl
    · have hinstalled := Arrived.installed hsame hroom page (Cache.touch f.txn f.access p)
        base'.locks
      rw [← hafter] at hinstalled
      refine .found _ hinstalled ?_
      intro g hg
      obtain rfl : g = (roomy.install page (Cache.touch f.txn f.access p)).1 := by
        simpa [hfailed] using hg
      rfl
  | found frame harrived hhandles =>
    have hhit := fetch_of_hit f.pinned
      (hgrants.acquire_eq f.txn page f.access base.locks) harrived.resident
    obtain ⟨rfl, rfl⟩ := Prod.mk.inj (hhit.symm.trans hrun)
    refine .found _ (harrived.served f.txn f.access _) ?_
    intro g hg
    rcases List.mem_append.1 hg with hg | hg
    · exact hhandles g hg
    · obtain rfl := Except.ok.inj (List.mem_singleton.1 hg)
      rfl

theorem Sought.fetchInTurn (h : Sought page db answers base) (hgrants : locking.Grants)
    (rest : List Fetcher) :
    Sought page db (answers ++ (fetchInTurn locking page rest base).1)
      (Database.fetchInTurn locking page rest base).2 := by
  induction rest generalizing answers base with
  | nil => rwa [Database.fetchInTurn, List.append_nil]
  | cons f rest ih =>
    have hnext := ih (h.fetch (f := f) hgrants rfl)
    rw [List.append_assoc] at hnext
    exact hnext

/-- Fetching a page again and again, whatever for. -/
theorem sought (hgrants : locking.Grants) (page : PageId) (fetchers : List Fetcher)
    (db : Database σ) :
    Sought page db (fetchInTurn locking page fetchers db).1
      (fetchInTurn locking page fetchers db).2 :=
  Sought.fetchInTurn (.failed (fun _ => List.not_mem_nil) (.refl db)) hgrants fetchers

theorem fetchInTurn_concat (fetchers : List Fetcher) (f : Fetcher) (db : Database σ) :
    fetchInTurn locking page (fetchers ++ [f]) db =
      ((fetchInTurn locking page fetchers db).1 ++
          [((fetch locking f.txn page f.access f.pinned).run
            (fetchInTurn locking page fetchers db).2).1],
        ((fetch locking f.txn page f.access f.pinned).run
          (fetchInTurn locking page fetchers db).2).2) := by
  induction fetchers generalizing db with
  | nil => rfl
  | cons g rest ih => simp [fetchInTurn, ih]

end Database

namespace Database.Sought

variable {σ : Type} {page : PageId} {db base : Database σ}
  {answers : List (Except StorageError Frame)}

/-- All that fetching a page a number of times costs. -/
theorem cost_le (h : Sought page db answers base) :
    base.cache.loading = db.cache.loading ∧
      base.cache.evictions ≤ db.cache.evictions + 1 ∧
      base.cache.nextSerial ≤ db.cache.nextSerial + 1 ∧
      ∃ victim, ∀ q, q ≠ page → q ≠ victim →
        base.cache.frames.get? q = db.cache.frames.get? q := by
  cases h with
  | failed _ hsame =>
    rw [hsame.cache_eq]
    exact ⟨rfl, Nat.le_succ _, Nat.le_succ _, page, fun _ _ _ => rfl⟩
  | found frame harrived _ =>
    exact ⟨harrived.loading_eq, harrived.evictions_le, harrived.serials_le, harrived.others⟩

theorem resident_of_ok (h : Sought page db answers base) {frame : Frame}
    (hmem : .ok frame ∈ answers) :
    ∃ copy, base.cache.frames.get? page = some copy ∧ copy.handle = frame.handle := by
  cases h with
  | failed hfailed _ => exact absurd hmem (hfailed frame)
  | found copy harrived hhandles => exact ⟨copy, harrived.resident, (hhandles frame hmem).symm⟩

end Database.Sought

end RowStore
