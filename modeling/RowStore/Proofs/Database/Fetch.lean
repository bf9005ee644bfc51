import RowStore.Proofs.Database.Coherent

/-!
# Fetching a page

A fetch that fails leaves everything but the locks as it was. One that succeeds yields what the
page shows; for reading it changes nothing that is shown, for writing it makes the page a draft of
the transaction. The page that is given up for it was not changed, so nothing is lost with it.
-/

namespace RowStore

namespace Cache

variable {c roomy : Cache} {pinned : List Handle} {page : PageId} {txn : TxnId} {access : Access}

/-- Room is made by giving up one page that is clean, if any. -/
theorem makeRoom_eq_ok (h : c.makeRoom pinned = .ok roomy) :
    (c.size < c.capacity ∧ roomy = c) ∨
      ∃ victim frame, c.frames.get? victim = some frame ∧ frame.page.isDirty = false ∧
        roomy = { c.drop victim with evictions := c.evictions + 1 } := by
  unfold makeRoom at h
  split at h
  · next hlt => exact .inl ⟨hlt, (Except.ok.inj h).symm⟩
  · split at h
    · cases h
    · next victim hfind =>
      have hev := List.find?_some hfind
      unfold evictable at hev
      cases hf : c.frames.get? victim with
      | none => simp [hf] at hev
      | some frame =>
        have hclean : ¬ frame.handle ∈ pinned ∧ frame.page.isDirty = false := by
          simpa [hf] using hev
        exact .inr ⟨victim, frame, hf, hclean.2, (Except.ok.inj h).symm⟩

/-- A cache that holds no more pages than it may, and in which room was made for one more. -/
theorem makeRoom_spec (h : c.makeRoom pinned = .ok roomy) (hkeys : c.frames.WellKeyed)
    (hsize : c.size ≤ c.capacity) :
    roomy.frames.WellKeyed ∧ roomy.size < roomy.capacity ∧ roomy.loading = c.loading ∧
      ∀ q, c.Spares roomy q := by
  rcases makeRoom_eq_ok h with ⟨hlt, rfl⟩ | ⟨victim, frame, hf, hclean, rfl⟩
  · exact ⟨hkeys, hlt, rfl, fun q => .inl rfl⟩
  · refine ⟨hkeys.erase _, Nat.lt_of_lt_of_le (Keyed.size_erase_lt hf) hsize, rfl, ?_⟩
    intro q
    by_cases hq : q = victim
    · subst hq
      exact .inr ⟨Keyed.get?_erase_self _ _, frame, hf, hclean⟩
    · exact .inl (Keyed.get?_erase_of_ne _ hq)

theorem isDirty_touch (p : Page) :
    (touch txn access p).isDirty = (access.isWrite || p.isDirty) := by
  unfold touch
  split
  · next h => simp [h, Page.markDirty_eq, Page.isDirty]
  · next h => simp [h]

theorem cells_touch (p : Page) : (touch txn access p).cells = p.cells := by
  unfold touch
  split
  · rw [Page.markDirty_eq]
    rfl
  · rfl

theorem draft?_touch (p : Page) :
    (touch txn access p).draft? =
      if access.isWrite then some ⟨some txn, p.cells⟩ else p.draft? := by
  unfold touch
  split
  · rw [Page.markDirty_eq]
    rfl
  · rfl

theorem request_of_absent (txn : TxnId) (access : Access) (h : c.frames.get? page = none) :
    c.request txn page access = (.busy, c) ∨
      c.request txn page access = (.load, { c with loading := page :: c.loading }) := by
  simp only [request, h]
  split
  · exact .inl rfl
  · exact .inr rfl

/-- The last step of a fetch takes back the mark that the first one set. -/
theorem settle_marked (read : Except StorageError Page) :
    settle { c with loading := page :: c.loading } txn page access pinned read =
      match read with
      | .error e => (.error e, c)
      | .ok p =>
        match c.makeRoom pinned with
        | .error e => (.error e, c)
        | .ok roomy =>
          (.ok (roomy.install page (touch txn access p)).1,
            (roomy.install page (touch txn access p)).2) := by
  cases read with
  | error e => simp [settle]
  | ok p =>
    cases hroom : c.makeRoom pinned with
    | error e => simp [settle, hroom]
    | ok roomy => simp [settle, hroom]

end Cache

namespace Database

variable {σ : Type} {locking : LockManager σ} {txn : TxnId} {page : PageId} {access : Access}
  {pinned : List Handle} {db db' : Database σ} {answer : Except StorageError Frame}

theorem load_eq_ok {p : Page} (h : db.load page = .ok p) :
    db.catalog.stored? db.volume page = some p := by
  obtain ⟨r, hr, hp⟩ := Except.bind_eq_ok.1 h
  unfold Registration.readPage at hp
  split at hp
  · cases hp
  · exact Catalog.stored?_eq_some.2 ⟨r, hr, hp⟩

/-- What a fetch can do: fail, serve a resident page, or read the page and install it. -/
theorem fetch_cases (h : (fetch locking txn page access pinned).run db = (answer, db')) :
    (∃ e, answer = .error e ∧ db' = { db with locks := db'.locks }) ∨
    (∃ frame, db.cache.frames.get? page = some frame ∧
      answer = .ok { frame with page := Cache.touch txn access frame.page } ∧
      db' = { db with
        locks := db'.locks
        cache := (db.cache.request txn page access).2 }) ∨
    ∃ p roomy, db.cache.frames.get? page = none ∧
      db.catalog.stored? db.volume page = some p ∧ db.cache.makeRoom pinned = .ok roomy ∧
      answer = .ok (roomy.install page (Cache.touch txn access p)).1 ∧
      db' = { db with
        locks := db'.locks
        cache := (roomy.install page (Cache.touch txn access p)).2 } := by
  rcases hlock : locking.acquire txn page access db.locks with ⟨_ | _, locks⟩
  · next e =>
    obtain ⟨rfl, rfl⟩ : .error e = answer ∧ { db with locks := locks } = db' := by
      simpa [fetch, onLocks, Action.run_bind, hlock] using h
    exact .inl ⟨e, rfl, rfl⟩
  · simp only [fetch, onLocks, onCache, Action.run_bind, Action.run_within, hlock,
      Action.run_step] at h
    cases hf : db.cache.frames.get? page with
    | some frame =>
      refine .inr (.inl ⟨frame, rfl, ?_⟩)
      simp only [Cache.request, hf, Action.run_pure, Prod.mk.injEq] at h
      obtain ⟨rfl, rfl⟩ := h
      simp [Cache.request, hf]
    | none =>
      rcases Cache.request_of_absent txn access hf with hreq | hreq
      · simp only [hreq, Action.run_fail, Prod.mk.injEq] at h
        obtain ⟨rfl, rfl⟩ := h
        exact .inl ⟨_, rfl, rfl⟩
      · simp only [hreq, Action.run_bind, Action.run_ask, Action.run_within,
          Cache.settle_marked] at h
        have hload : load { db with
            locks := locks, cache := { db.cache with loading := page :: db.cache.loading } } page =
          db.load page := rfl
        simp only [hload] at h
        cases hread : db.load page with
        | error e =>
          simp only [hread, Prod.mk.injEq] at h
          obtain ⟨rfl, rfl⟩ := h
          exact .inl ⟨_, rfl, rfl⟩
        | ok p =>
          cases hroom : db.cache.makeRoom pinned with
          | error e =>
            simp only [hread, hroom, Prod.mk.injEq] at h
            obtain ⟨rfl, rfl⟩ := h
            exact .inl ⟨_, rfl, rfl⟩
          | ok roomy =>
            simp only [hread, hroom, Prod.mk.injEq] at h
            obtain ⟨rfl, rfl⟩ := h
            exact .inr (.inr ⟨p, roomy, rfl, load_eq_ok hread, rfl, rfl, rfl⟩)

theorem catalog_of_fetch (h : (fetch locking txn page access pinned).run db = (answer, db')) :
    db'.catalog = db.catalog ∧ db'.volume = db.volume := by
  rcases fetch_cases h with ⟨e, -, hdb⟩ | ⟨frame, -, -, hdb⟩ | ⟨p, roomy, -, -, -, -, hdb⟩
  all_goals
    rw [hdb]
    exact ⟨rfl, rfl⟩

/-- The rest of a fetch once the lock is granted and the page is there. -/
theorem fetch_of_hit {locks : σ} {frame : Frame} (pinned : List Handle)
    (hlock : locking.acquire txn page access db.locks = (.ok (), locks))
    (hf : db.cache.frames.get? page = some frame) :
    (fetch locking txn page access pinned).run db =
      (.ok { frame with page := Cache.touch txn access frame.page },
        { db with locks := locks, cache := (db.cache.request txn page access).2 }) := by
  simp [fetch, onLocks, onCache, Action.run_bind, hlock, Cache.request, hf]

/-- The rest of a fetch once the lock is granted, the page is not there, and nobody else is loading
it. -/
theorem fetch_of_unmarked {locks : σ} (pinned : List Handle)
    (hlock : locking.acquire txn page access db.locks = (.ok (), locks))
    (hf : db.cache.frames.get? page = none) (hloading : page ∉ db.cache.loading) :
    (fetch locking txn page access pinned).run db =
      let settled := Cache.settle { db.cache with loading := page :: db.cache.loading } txn page
        access pinned (db.load page)
      (settled.1, { db with locks := locks, cache := settled.2 }) := by
  have hrequest : db.cache.request txn page access =
      (.load, { db.cache with loading := page :: db.cache.loading }) := by
    simp [Cache.request, hf, hloading]
  simp only [fetch, onLocks, onCache, Action.run_bind, Action.run_within, hlock, Action.run_step,
    hrequest, Action.run_ask]
  rfl

/-- The rest of a fetch once the lock is granted and the page is not there. -/
theorem fetch_of_miss {locks : σ} (pinned : List Handle)
    (hlock : locking.acquire txn page access db.locks = (.ok (), locks))
    (hf : db.cache.frames.get? page = none) (hloading : db.cache.loading = []) :
    (fetch locking txn page access pinned).run db =
      match db.load page with
      | .error e => (.error e, { db with locks := locks })
      | .ok p =>
        match db.cache.makeRoom pinned with
        | .error e => (.error e, { db with locks := locks })
        | .ok roomy =>
          (.ok (roomy.install page (Cache.touch txn access p)).1,
            { db with
              locks := locks
              cache := (roomy.install page (Cache.touch txn access p)).2 }) := by
  rw [fetch_of_unmarked pinned hlock hf (by simp [hloading])]
  simp only [Cache.settle_marked]
  cases db.load page with
  | error e => rfl
  | ok p => cases db.cache.makeRoom pinned <;> rfl

/-- A page that is not resident is read from its file if the lock is granted and the cache has
room. -/
theorem fetch_of_absent {p : Page} {locks : σ}
    (hlock : locking.acquire txn page access db.locks = (.ok (), locks))
    (hf : db.cache.frames.get? page = none) (hloading : db.cache.loading = [])
    (hsize : db.cache.size < db.cache.capacity) (hload : db.load page = .ok p) :
    ((fetch locking txn page access pinned).run db).1 =
      .ok ⟨⟨page, db.cache.nextSerial⟩, Cache.touch txn access p⟩ := by
  have hroom : db.cache.makeRoom pinned = .ok db.cache := if_pos hsize
  rw [fetch_of_miss pinned hlock hf hloading, hload, hroom]
  rfl

/-- A successful fetch: the page is resident as it was shown. -/
structure Fetched (txn : TxnId) (page : PageId) (access : Access) (db : Database σ) (frame : Frame)
    (db' : Database σ) : Prop where
  coherent : db'.Coherent
  catalog_eq : db'.catalog = db.catalog
  volume_eq : db'.volume = db.volume
  resident : db'.cache.frames.get? page = some frame
  shows : db.view.cells? page = some frame.page.cells
  isDirty : access.isWrite = true → frame.page.isDirty = true
  view_eq : db'.view =
    if access.isWrite then db.view.write page txn frame.page.cells else db.view

/-- A fetch changes nothing that is shown, whatever it is for. -/
theorem Fetched.cells?_eq {frame : Frame} (h : Fetched txn page access db frame db') (q : PageId) :
    db'.view.cells? q = db.view.cells? q := by
  rw [h.view_eq]
  split
  · rw [View.cells?_write]
    split
    · next hq => rw [hq, h.shows]
    · rfl
  · rfl

/-- The cache gets one frame for a page, and may lose clean pages beside it. -/
theorem Fetched.of_frame {c : Cache} {locks : σ} {frame : Frame} (h : db.Coherent)
    (hb : frame.Backed db.catalog db.volume page)
    (hshows : db.view.cells? page = some frame.page.cells)
    (hdraft : db.view.drafts page = frame.page.draft?)
    (hget : c.frames.get? page =
      some { frame with page := Cache.touch txn access frame.page })
    (hother : ∀ q, q ≠ page → db.cache.Spares c q)
    (hkeys : c.frames.WellKeyed) (hsize : c.size ≤ c.capacity) (hloading : c.loading = []) :
    Fetched txn page access db { frame with page := Cache.touch txn access frame.page }
      { db with locks := locks, cache := c } := by
  obtain ⟨hcoherent, hview⟩ := h.setFrame (hb.touch txn access) hget hother hkeys hsize hloading
  refine ⟨hcoherent.withLocks locks, rfl, rfl, hget, ?_, ?_, hview.trans ?_⟩
  · rw [Cache.cells_touch]
    exact hshows
  · intro hw
    rw [Cache.isDirty_touch, hw, Bool.true_or]
  · rw [Cache.draft?_touch, Cache.cells_touch]
    split
    · rfl
    · rw [← hdraft, Function.update_eq_self]

theorem Coherent.fetch (h : db.Coherent)
    (hrun : (fetch locking txn page access pinned).run db = (answer, db')) :
    (∃ e, answer = .error e ∧ db' = { db with locks := db'.locks }) ∨
      ∃ frame, answer = .ok frame ∧ Fetched txn page access db frame db' := by
  rcases fetch_cases hrun with hfail | ⟨frame, hf, rfl, hdb⟩ |
    ⟨p, roomy, hf, hread, hroom, rfl, hdb⟩
  · exact .inl hfail
  · have hframes : (db.cache.request txn page access).2.frames = db.cache.frames.adjust page
        fun _ => { frame with page := Cache.touch txn access frame.page } := by
      simp [Cache.request, hf]
    refine .inr ⟨_, rfl, ?_⟩
    rw [hdb]
    refine .of_frame h (h.backed page frame hf) (h.cells?_view hf) (drafts_of_resident hf) ?_
      (fun q hne => .inl ?_) ?_ ?_ ?_
    · rw [hframes, Keyed.get?_adjust, if_pos rfl, hf]
      rfl
    · rw [hframes, Keyed.get?_adjust, if_neg hne]
    · rw [hframes]
      exact h.wellKeyed.adjust _ _
    · simpa [Cache.request, hf, Cache.size] using h.size_le
    · simp [Cache.request, hf, h.loading]
  · refine .inr ⟨_, rfl, ?_⟩
    rw [hdb]
    have hclean := Catalog.isDirty_of_stored? hread
    obtain ⟨hkeys, hsize, hloading, hframes⟩ := Cache.makeRoom_spec hroom h.wellKeyed h.size_le
    refine .of_frame h (h.tables.backed hread roomy.nextSerial) ?_ ?_
      (Keyed.get?_put_self _ _ _) (fun q hne => ?_) (hkeys.put _ _)
      (Nat.le_trans (Keyed.size_put_le _ _ _) hsize) (hloading.trans h.loading)
    · rw [cells?_view_of_absent hf, hread]
      rfl
    · rw [drafts_of_absent hf]
      exact (Page.draft?_of_clean hclean).symm
    · have hput : (roomy.install page (Cache.touch txn access p)).2.frames.get? q =
          roomy.frames.get? q := by
        simp [Cache.install, Keyed.get?_put, hne]
      rw [Cache.Spares, hput]
      exact hframes q

end Database

end RowStore
