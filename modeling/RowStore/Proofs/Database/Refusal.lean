import RowStore.Proofs.Database.Replacement

/-!
# Fetches that fail

A fetch changes the marks and the counters of the cache on its way, may mark the page as changed,
and may give up another page; the lock manager, the catalog, the file and the cache may each refuse
it. Here nothing is assumed of the database. Whoever refuses, and at whatever point, all that may
have changed is what the lock manager remembers; so the same fetch is refused again, with the same
error, as long as the lock manager answers as before.
-/

namespace RowStore

namespace Cache

variable {c : Cache} {pinned : List Handle}

/-- There is no room just if the cache is full and no page may go. -/
theorem makeRoom_eq_error_iff {e : StorageError} :
    c.makeRoom pinned = .error e ↔
      e = .cacheExhausted ∧ c.capacity ≤ c.size ∧
        ∀ q ∈ c.ranking.candidates, ¬ c.Spare pinned q := by
  have hnone : c.ranking.candidates.find? (c.evictable pinned) = none ↔
      ∀ q ∈ c.ranking.candidates, ¬ c.Spare pinned q := by
    rw [List.find?_eq_none]
    exact forall₂_congr fun q _ => not_congr evictable_iff
  rw [← hnone, ← Nat.not_lt, makeRoom]
  by_cases hlt : c.size < c.capacity
  · simp [hlt]
  · cases hfind : c.ranking.candidates.find? (c.evictable pinned) with
    | none => simp [hlt, eq_comm]
    | some victim => simp [hlt]

end Cache

namespace Database

variable {σ : Type} {locking : LockManager σ} {txn : TxnId} {page : PageId} {access : Access}
  {pinned : List Handle} {db db' : Database σ} {e : StorageError}

/-- The lock is granted, but the page is not in the cache. -/
structure Misses (locking : LockManager σ) (txn : TxnId) (page : PageId) (access : Access)
    (db : Database σ) : Prop where
  granted : (locking.acquire txn page access db.locks).1 = .ok ()
  absent : db.cache.frames.get? page = none

/-- Why a fetch fails, and with what error. -/
inductive Refused (locking : LockManager σ) (txn : TxnId) (page : PageId) (access : Access)
    (pinned : List Handle) (db : Database σ) : StorageError → Prop
  | denied {e : StorageError} : (locking.acquire txn page access db.locks).1 = .error e →
      Refused locking txn page access pinned db e
  | underway : db.Misses locking txn page access → page ∈ db.cache.loading →
      Refused locking txn page access pinned db .stalled
  | unregistered {e : StorageError} : db.Misses locking txn page access →
      page ∉ db.cache.loading → db.catalog.registration page.table = .error e →
      Refused locking txn page access pinned db e
  | unreadable {e : StorageError} {r : Registration} : db.Misses locking txn page access →
      page ∉ db.cache.loading → db.catalog.registration page.table = .ok r →
      r.readPage db.volume page = .error e → Refused locking txn page access pinned db e
  | exhausted {p : Page} : db.Misses locking txn page access → page ∉ db.cache.loading →
      db.load page = .ok p → db.cache.capacity ≤ db.cache.size →
      (∀ q ∈ db.cache.ranking.candidates, ¬ db.cache.Spare pinned q) →
      Refused locking txn page access pinned db .cacheExhausted

theorem load_eq_error_iff :
    db.load page = .error e ↔
      db.catalog.registration page.table = .error e ∨
        ∃ r, db.catalog.registration page.table = .ok r ∧ r.readPage db.volume page = .error e := by
  unfold load
  cases db.catalog.registration page.table with
  | error d => simp [bind, Except.bind]
  | ok r => simp [bind, Except.bind]

theorem fetch_of_denied {locks : σ} (pinned : List Handle)
    (hlock : locking.acquire txn page access db.locks = (.error e, locks)) :
    (fetch locking txn page access pinned).run db = (.error e, { db with locks := locks }) := by
  simp [fetch, onLocks, Action.run_bind, hlock]

theorem fetch_of_underway {locks : σ} (pinned : List Handle)
    (hlock : locking.acquire txn page access db.locks = (.ok (), locks))
    (hf : db.cache.frames.get? page = none) (hloading : page ∈ db.cache.loading) :
    (fetch locking txn page access pinned).run db =
      (.error .stalled, { db with locks := locks }) := by
  simp [fetch, onLocks, onCache, Action.run_bind, hlock, Cache.request, hf, hloading]

/-- What a fetch does that misses a page which nobody else is loading. -/
theorem Misses.run_fetch (h : db.Misses locking txn page access)
    (hloading : page ∉ db.cache.loading) (pinned : List Handle) :
    (fetch locking txn page access pinned).run db =
      match db.load page with
      | .error e => (.error e, { db with locks := (locking.acquire txn page access db.locks).2 })
      | .ok p =>
        match db.cache.makeRoom pinned with
        | .error e => (.error e, { db with locks := (locking.acquire txn page access db.locks).2 })
        | .ok roomy =>
          (.ok (roomy.install page (Cache.touch txn access p)).1,
            { db with
              locks := (locking.acquire txn page access db.locks).2
              cache := (roomy.install page (Cache.touch txn access p)).2 }) := by
  rw [fetch_of_unmarked pinned (Prod.ext h.granted rfl) h.absent hloading]
  simp only [Cache.settle_marked]
  cases db.load page with
  | error e => rfl
  | ok p => cases db.cache.makeRoom pinned <;> rfl

/-- A fetch that is refused changes nothing but what the lock manager remembers. -/
theorem Refused.run_fetch (h : db.Refused locking txn page access pinned e) :
    (fetch locking txn page access pinned).run db =
      (.error e, { db with locks := (locking.acquire txn page access db.locks).2 }) := by
  cases h with
  | denied hdenied => exact fetch_of_denied pinned (Prod.ext hdenied rfl)
  | underway hmiss hloading =>
    exact fetch_of_underway pinned (Prod.ext hmiss.granted rfl) hmiss.absent hloading
  | unregistered hmiss hloading hr =>
    rw [hmiss.run_fetch hloading, load_eq_error_iff.2 (.inl hr)]
  | unreadable hmiss hloading hr hread =>
    rw [hmiss.run_fetch hloading, load_eq_error_iff.2 (.inr ⟨_, hr, hread⟩)]
  | exhausted hmiss hloading hload hfull hspare =>
    rw [hmiss.run_fetch hloading, hload, Cache.makeRoom_eq_error_iff.2 ⟨rfl, hfull, hspare⟩]

/-- A fetch that is not refused succeeds. -/
theorem refused_or_ok (locking : LockManager σ) (txn : TxnId) (page : PageId) (access : Access)
    (pinned : List Handle) (db : Database σ) :
    (∃ e, db.Refused locking txn page access pinned e) ∨
      ∃ frame, ((fetch locking txn page access pinned).run db).1 = .ok frame := by
  cases hlock : (locking.acquire txn page access db.locks).1 with
  | error e => exact .inl ⟨e, .denied hlock⟩
  | ok _ =>
    cases hf : db.cache.frames.get? page with
    | some frame =>
      refine .inr ⟨{ frame with page := Cache.touch txn access frame.page }, ?_⟩
      rw [fetch_of_hit pinned (Prod.ext hlock rfl) hf]
    | none =>
      have hmiss : db.Misses locking txn page access := ⟨hlock, hf⟩
      by_cases hloading : page ∈ db.cache.loading
      · exact .inl ⟨_, .underway hmiss hloading⟩
      · cases hload : db.load page with
        | error e =>
          rcases load_eq_error_iff.1 hload with hr | ⟨r, hr, hread⟩
          · exact .inl ⟨e, .unregistered hmiss hloading hr⟩
          · exact .inl ⟨e, .unreadable hmiss hloading hr hread⟩
        | ok p =>
          cases hroom : db.cache.makeRoom pinned with
          | error e =>
            obtain ⟨-, hfull, hspare⟩ := Cache.makeRoom_eq_error_iff.1 hroom
            exact .inl ⟨_, .exhausted hmiss hloading hload hfull hspare⟩
          | ok roomy =>
            refine .inr ⟨(roomy.install page (Cache.touch txn access p)).1, ?_⟩
            rw [hmiss.run_fetch hloading, hload, hroom]

/-- Of the state of the lock manager, only its answer counts. -/
theorem Refused.withLocks (h : db.Refused locking txn page access pinned e) {locks : σ}
    (hsame : (locking.acquire txn page access locks).1 =
      (locking.acquire txn page access db.locks).1) :
    Refused locking txn page access pinned { db with locks := locks } e := by
  have hmisses (hmiss : db.Misses locking txn page access) :
      Misses locking txn page access { db with locks := locks } :=
    ⟨hsame.trans hmiss.granted, hmiss.absent⟩
  cases h with
  | denied hdenied => exact .denied (hsame.trans hdenied)
  | underway hmiss hloading => exact .underway (hmisses hmiss) hloading
  | unregistered hmiss hloading hr => exact .unregistered (hmisses hmiss) hloading hr
  | unreadable hmiss hloading hr hread => exact .unreadable (hmisses hmiss) hloading hr hread
  | exhausted hmiss hloading hload hfull hspare =>
    exact .exhausted (hmisses hmiss) hloading hload hfull hspare

/-- A fetch fails just if it is refused. -/
theorem fetch_eq_error_iff :
    ((fetch locking txn page access pinned).run db).1 = .error e ↔
      db.Refused locking txn page access pinned e := by
  constructor
  · intro herror
    rcases refused_or_ok locking txn page access pinned db with ⟨d, hd⟩ | ⟨frame, hok⟩
    · rw [hd.run_fetch] at herror
      obtain rfl := Except.error.inj herror
      exact hd
    · cases hok.symm.trans herror
  · intro hrefused
    rw [hrefused.run_fetch]

/-- A fetch that fails had a reason to, and leaves everything as it was but for what the lock
manager remembers. When the manager answers it the same way again, the same fetch fails again, with
the same error, and again leaves everything. -/
theorem failed_fetch_leaves_no_trace
    (hrun : (fetch locking txn page access pinned).run db = (.error e, db')) :
    db.Refused locking txn page access pinned e ∧
      db' = { db with locks := (locking.acquire txn page access db.locks).2 } ∧
      ∀ locks, (locking.acquire txn page access locks).1 =
          (locking.acquire txn page access db.locks).1 →
        (fetch locking txn page access pinned).run { db' with locks := locks } =
          (.error e, { db with locks := (locking.acquire txn page access locks).2 }) := by
  have hrefused := fetch_eq_error_iff.1 (congrArg Prod.fst hrun)
  obtain ⟨-, rfl⟩ := Prod.mk.inj (hrefused.run_fetch.symm.trans hrun)
  exact ⟨hrefused, rfl, fun locks hsame => (hrefused.withLocks hsame).run_fetch⟩

/-- A cache for one page holds a changed one. Another page is stored and can be read, but there is
no room for it, and asking again does not help. -/
theorem failed_fetch_leaves_no_trace_cache_exhausted :
    ∃ (steps : List (Step Unit)) (db db' : Database Unit),
      Run .permissive (ofTable numbers 9 1) steps db ∧
        (db.load ⟨TableFile.idOf ["t"], 0⟩).toOption.isSome = true ∧
        db.cache.dirtyPages none = [⟨TableFile.idOf ["t"], 1⟩] ∧
        (fetch .permissive ⟨2⟩ ⟨TableFile.idOf ["t"], 0⟩ .readWrite []).run db =
          (.error .cacheExhausted, db') ∧
        db' = db ∧
        (fetch .permissive ⟨2⟩ ⟨TableFile.idOf ["t"], 0⟩ .readWrite []).run db' =
          (.error .cacheExhausted, db) := by
  let played := play .permissive [] (ofTable numbers 9 1)
    [.insert ⟨1⟩ (TableFile.idOf ["t"]) (number 5),
      .insert ⟨1⟩ (TableFile.idOf ["t"]) (number 6),
      .complete ⟨1⟩ true,
      .insert ⟨1⟩ (TableFile.idOf ["t"]) (number 7)]
  have hsession : Run .permissive (ofTable numbers 9 1) played.1 played.2 :=
    Run.of_calls _ _ _ (by decide +kernel)
  have hload : (played.2.load ⟨TableFile.idOf ["t"], 0⟩).toOption.isSome = true := by
    decide +kernel
  have hdirty : played.2.cache.dirtyPages none = [⟨TableFile.idOf ["t"], 1⟩] := by decide +kernel
  have herror : ((fetch .permissive ⟨2⟩ ⟨TableFile.idOf ["t"], 0⟩ .readWrite []).run played.2).1 =
      .error .cacheExhausted := by decide +kernel
  generalize played.2 = db at hsession hload hdirty herror
  rcases hrun : (fetch .permissive ⟨2⟩ ⟨TableFile.idOf ["t"], 0⟩ .readWrite []).run db with
    ⟨answer, db'⟩
  rw [hrun] at herror
  subst herror
  obtain ⟨-, hsame, hagain⟩ := failed_fetch_leaves_no_trace hrun
  exact ⟨_, db, db', hsession, hload, hdirty, hrun, hsame, hagain () rfl⟩

end Database

end RowStore
