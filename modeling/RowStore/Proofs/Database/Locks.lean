import RowStore.Proofs.Database.Cleaning
import RowStore.Proofs.Database.Reading

/-!
# What a lock manager can rely on

A lock manager may answer as it likes. A log of the calls that it gets tells what the database does
between them: nothing is fetched before its request is granted, every page that is seen was granted,
for writing if it is changed, and a transaction lets go when all of its pages are dealt with.
-/

namespace RowStore

/-- Calls to a lock manager with its answers, the last one first. -/
abbrev LockLog := List (LockCall × Except StorageError Unit)

namespace LockLog

variable {log later : LockLog} {txn : TxnId} {page : PageId} {access : Access}

/-- A request was made and granted. -/
def Grants (log : LockLog) (txn : TxnId) (page : PageId) (access : Access) : Prop :=
  (LockCall.acquire txn page access, Except.ok ()) ∈ log

/-- A request was granted, and since then the transaction has not let go of all its locks. -/
def Holds (log : LockLog) (txn : TxnId) (page : PageId) (access : Access) : Prop :=
  ∃ later earlier : LockLog, log = later ++ (.acquire txn page access, .ok ()) :: earlier ∧
    ∀ call ∈ later, call.1 ≠ .releaseAll txn

theorem holds_cons_self (log : LockLog) (txn : TxnId) (page : PageId) (access : Access) :
    Holds ((.acquire txn page access, .ok ()) :: log) txn page access :=
  ⟨[], log, rfl, by simp⟩

theorem Holds.cons {call : LockCall × Except StorageError Unit} (h : log.Holds txn page access)
    (hcall : call.1 ≠ .releaseAll txn) : Holds (call :: log) txn page access := by
  obtain ⟨later, earlier, rfl, hlater⟩ := h
  exact ⟨call :: later, earlier, rfl, List.forall_mem_cons.2 ⟨hcall, hlater⟩⟩

end LockLog

/-- A lock manager that keeps a log of its calls. It answers as it would without the log. -/
def LockManager.logged {σ : Type} (locking : LockManager σ) : LockManager (σ × LockLog) where
  acquire txn page access s :=
    let (answer, t) := locking.acquire txn page access s.1
    (answer, t, (.acquire txn page access, answer) :: s.2)
  release txn page s := (locking.release txn page s.1, (.release txn page, .ok ()) :: s.2)
  releaseAll txn s := (locking.releaseAll txn s.1, (.releaseAll txn, .ok ()) :: s.2)
  holds txn page s := locking.holds txn page s.1

namespace Page

variable {p : Page} {txn other : TxnId}

theorem dirtiedBy_markDirty (p : Page) (txn other : TxnId) :
    (p.markDirty (some txn)).dirtiedBy other = decide (txn = other) := by
  rw [markDirty_eq]
  simp [dirtiedBy, dirtier?]

theorem isDirty_of_dirtiedBy (h : p.dirtiedBy txn = true) : p.isDirty = true := by
  unfold dirtiedBy dirtier? at h
  unfold isDirty
  cases hs : p.status with
  | clean => simp [hs] at h
  | dirty owner? => rfl

end Page

namespace Cache

variable {c : Cache} {page : PageId} {frame : Frame} {txn : TxnId}

theorem changedBy_of_dirtiedBy (hf : c.frames.get? page = some frame)
    (h : frame.page.dirtiedBy txn = true) : c.ChangedBy txn page :=
  ⟨frame, hf, Page.isDirty_of_dirtiedBy h, by simpa [Page.dirtiedBy] using h⟩

end Cache

namespace Database

variable {σ : Type}

/-! ## Fetching -/

/-- What a fetch does once its lock is granted. -/
def supply (txn : TxnId) (page : PageId) (access : Access) (pinned : List Handle) :
    Action (Database σ) Frame := do
  match ← onCache (.step fun c => c.request txn page access) with
  | .served frame => return frame
  | .busy => .fail .stalled
  | .load =>
    let read ← .ask fun db => db.load page
    onCache ⟨fun c => c.settle txn page access pinned read⟩

theorem locks_supply (txn : TxnId) (page : PageId) (access : Access) (pinned : List Handle)
    (db : Database σ) : ((supply txn page access pinned).run db).2.locks = db.locks := by
  simp only [supply, onCache, Action.run_bind, Action.run_within, Action.run_step]
  cases (db.cache.request txn page access).1 <;> rfl

/-- A fetch asks for its lock first, and makes no other call. If the lock is denied, only the lock
manager knows that it was asked for. -/
structure AsksFirst (locking : LockManager σ) (txn : TxnId) (page : PageId) (access : Access)
    (pinned : List Handle) : Prop where
  fetch_eq : fetch locking txn page access pinned =
    onLocks ⟨locking.acquire txn page access⟩ >>= fun _ => supply txn page access pinned
  silent : ∀ db : Database σ, ((supply txn page access pinned).run db).2.locks = db.locks
  denied : ∀ (db : Database σ) (e : StorageError) (locks : σ),
    locking.acquire txn page access db.locks = (.error e, locks) →
    (fetch locking txn page access pinned).run db = (.error e, { db with locks := locks })

theorem asksFirst (locking : LockManager σ) (txn : TxnId) (page : PageId) (access : Access)
    (pinned : List Handle) : AsksFirst locking txn page access pinned where
  fetch_eq := rfl
  silent := locks_supply txn page access pinned
  denied db e locks hlock := by
    simp [fetch, onLocks, Action.run_bind, hlock]

variable {locking : LockManager σ} {txn other : TxnId} {page q : PageId} {access : Access}
  {pinned : List Handle} {frame : Frame} {fetched : Except StorageError Frame}

theorem locks_fetch (locking : LockManager σ) (txn : TxnId) (page : PageId) (access : Access)
    (pinned : List Handle) (db : Database σ) :
    ((fetch locking txn page access pinned).run db).2.locks =
      (locking.acquire txn page access db.locks).2 := by
  obtain ⟨heq, hsilent, hdenied⟩ := asksFirst locking txn page access pinned
  rcases hlock : locking.acquire txn page access db.locks with ⟨e | ⟨⟩, locks⟩
  · rw [hdenied db e locks hlock]
  · have hgranted : (onLocks ⟨locking.acquire txn page access⟩).run db =
        (.ok (), { db with locks := locks }) := by simp [onLocks, hlock]
    rw [heq, Action.run_bind_of_ok hgranted, hsilent]

theorem granted_of_fetch {db db' : Database σ}
    (hrun : (fetch locking txn page access pinned).run db = (.ok frame, db')) :
    (locking.acquire txn page access db.locks).1 = .ok () := by
  rcases hlock : locking.acquire txn page access db.locks with ⟨e | ⟨⟩, locks⟩
  · rw [(asksFirst locking txn page access pinned).denied db e locks hlock] at hrun
    cases hrun
  · rfl

/-- A page that a transaction changed last after a fetch was so before, or it was fetched for
writing by this transaction. -/
theorem dirtiedBy_of_fetch {db db' : Database σ}
    (hrun : (fetch locking txn page access pinned).run db = (fetched, db'))
    (hq : db'.cache.frames.get? q = some frame) (hdirty : frame.page.dirtiedBy other = true) :
    (∃ old, db.cache.frames.get? q = some old ∧ old.page.dirtiedBy other = true) ∨
      q = page ∧ other = txn ∧ access = .readWrite ∧ ∃ found, fetched = .ok found := by
  rcases fetch_cases hrun with ⟨-, -, hdb⟩ | ⟨old, hold, hanswer, hdb⟩ |
    ⟨p, roomy, -, hread, hroom, hanswer, hdb⟩
  · rw [hdb] at hq
    exact .inl ⟨frame, hq, hdirty⟩
  · rw [hdb, Cache.get?_request txn access hold] at hq
    split at hq
    · next heq =>
      obtain rfl := Option.some.inj hq
      cases access with
      | readOnly => exact .inl ⟨old, heq ▸ hold, hdirty⟩
      | readWrite =>
        have hother := of_decide_eq_true ((Page.dirtiedBy_markDirty _ _ _).symm.trans hdirty)
        exact .inr ⟨heq, hother.symm, rfl, _, hanswer⟩
    · exact .inl ⟨frame, hq, hdirty⟩
  · rw [hdb, Cache.get?_install] at hq
    split at hq
    · next heq =>
      obtain rfl := Option.some.inj hq
      cases access with
      | readOnly =>
        have hchanged := Page.isDirty_of_dirtiedBy hdirty
        have hclean := Catalog.isDirty_of_stored? hread
        exact absurd (hchanged.symm.trans hclean) (by simp)
      | readWrite =>
        have hother := of_decide_eq_true ((Page.dirtiedBy_markDirty _ _ _).symm.trans hdirty)
        exact .inr ⟨heq, hother.symm, rfl, _, hanswer⟩
    · exact .inl ⟨frame, Cache.get?_of_makeRoom hroom hq, hdirty⟩

variable {db db' : Database (σ × LockLog)}

theorem log_fetch (locking : LockManager σ) (txn : TxnId) (page : PageId) (access : Access)
    (pinned : List Handle) (db : Database (σ × LockLog)) :
    ((fetch locking.logged txn page access pinned).run db).2.locks.2 =
      (.acquire txn page access, (locking.acquire txn page access db.locks.1).1) ::
        db.locks.2 := by
  rw [locks_fetch]
  rfl

theorem log_of_fetch
    (hrun : (fetch locking.logged txn page access pinned).run db = (.ok frame, db')) :
    db'.locks.2 = (.acquire txn page access, .ok ()) :: db.locks.2 := by
  have hlog := log_fetch locking txn page access pinned db
  have hgranted : (locking.acquire txn page access db.locks.1).1 = .ok () := granted_of_fetch hrun
  rw [hgranted, hrun] at hlog
  exact hlog

/-! ## Ending a transaction -/

/-- What becomes of the pages of a transaction when it ends. -/
def dealWith (txn : TxnId) (commit : Bool) : Action (Database σ) Unit := do
  if commit then flushPages txn
  else discardAll (← .ask fun db => db.cache.dirtyPages (some txn))

/-- A transaction that ends lets go of its locks once, after all of its pages were dealt with
without a call to the lock manager; one that cannot end makes no call at all. -/
structure Ends (locking : LockManager σ) (txn : TxnId) (commit : Bool) (db : Database σ) :
    Prop where
  failed : ∀ e db', (complete locking txn commit).run db = (.error e, db') → db'.locks = db.locks
  ended : ∀ db', (complete locking txn commit).run db = (.ok (), db') →
    ∃ mid, (dealWith txn commit).run db = (.ok (), mid) ∧ mid.locks = db.locks ∧
      (∀ page, ¬ mid.cache.ChangedBy txn page) ∧
      db' = { mid with locks := locking.releaseAll txn db.locks }

theorem complete_eq (locking : LockManager σ) (txn : TxnId) (commit : Bool) :
    complete locking txn commit =
      dealWith txn commit >>= fun _ => onLocks (.update (locking.releaseAll txn)) := by
  cases commit <;> rfl

section

variable {σ : Type} {locking : LockManager σ} {txn : TxnId} {commit : Bool} {capacity : Nat}
  {moves : List (Move σ)} {answer : Except StorageError Unit} {db db' : Database σ}

/-- The pages that a transaction changed last were dealt with, as far as that was possible. Pages
that are still changed are as they were. -/
structure Dealt (txn : TxnId) (db : Database σ) (answer : Except StorageError Unit)
    (db' : Database σ) : Prop where
  locks_eq : db'.locks = db.locks
  housed : db'.cache.Housed
  unchanged : ∀ (page : PageId) (frame : Frame), db'.cache.frames.get? page = some frame →
    frame.page.isDirty = true → db.cache.frames.get? page = some frame
  done : answer = .ok () → ∀ page, ¬ db'.cache.ChangedBy txn page

/-- It is enough that no page of a list is still changed, if the list comes to have all pages that
the transaction changed last. -/
theorem dealt_of_unchanged {pages : List PageId} (h : db.cache.Records capacity moves)
    (hlocks : db'.locks = db.locks) (hhoused : db'.cache.Housed)
    (hkept : ∀ (page : PageId) (frame : Frame), db'.cache.frames.get? page = some frame →
      frame.page.isDirty = true → page ∉ pages ∧ db.cache.frames.get? page = some frame)
    (hall : answer = .ok () → db.cache.dirtyPages (some txn) = pages) :
    Dealt txn db answer db' := by
  refine ⟨hlocks, hhoused, fun page frame hf hdirty => (hkept page frame hf hdirty).2, ?_⟩
  rintro hok page ⟨frame, hf, hdirty, howner⟩
  obtain ⟨hnot, hold⟩ := hkept page frame hf hdirty
  have hchanged : db.cache.ChangedBy txn page := ⟨frame, hold, hdirty, howner⟩
  exact hnot (hall hok ▸ (Cache.mem_dirtyPages_some h.wellKeyed).2 hchanged)

theorem dealt (h : db.cache.Records capacity moves)
    (hrun : (dealWith txn commit).run db = (answer, db')) : Dealt txn db answer db' := by
  cases commit with
  | true =>
    have hrun : (flushEach (db.cache.dirtyPages (some txn))).run db = (answer, db') := hrun
    obtain ⟨done, rest, hpages, hcleans, hlocks, hall⟩ := cleans_flushEach h.housed hrun
    refine dealt_of_unchanged h hlocks (hcleans.housed h.housed)
      (fun _ _ hf hdirty => hcleans.unchanged hf hdirty) fun hok => ?_
    rw [hpages, hall hok, List.append_nil]
  | false =>
    have hrun : (discardAll (db.cache.dirtyPages (some txn))).run db = (answer, db') := hrun
    rw [run_discardAll] at hrun
    obtain ⟨-, rfl⟩ := Prod.mk.inj hrun
    have hwithout := Cache.without_dropAll h.ranking (db.cache.dirtyPages (some txn))
    exact dealt_of_unchanged h rfl
      (fun page frame hf => h.housed page frame (hwithout.unchanged hf).2)
      (fun _ _ hf _ => hwithout.unchanged hf) fun _ => rfl

theorem complete_cases (hrun : (complete locking txn commit).run db = (answer, db')) :
    (∃ e, answer = .error e ∧ (dealWith txn commit).run db = (.error e, db')) ∨
      ∃ mid, answer = .ok () ∧ (dealWith txn commit).run db = (.ok (), mid) ∧
        db' = { mid with locks := locking.releaseAll txn mid.locks } := by
  rw [complete_eq] at hrun
  rcases hdeal : (dealWith txn commit).run db with ⟨e | ⟨⟩, mid⟩
  · rw [Action.run_bind_of_error hdeal] at hrun
    obtain ⟨rfl, rfl⟩ := Prod.mk.inj hrun
    exact .inl ⟨e, rfl, rfl⟩
  · rw [Action.run_bind_of_ok hdeal] at hrun
    obtain ⟨rfl, rfl⟩ := Prod.mk.inj hrun
    exact .inr ⟨mid, rfl, rfl, rfl⟩

theorem ends (h : db.cache.Records capacity moves) : Ends locking txn commit db := by
  refine ⟨?_, ?_⟩
  · intro e db' hrun
    rcases complete_cases hrun with ⟨e', -, hdeal⟩ | ⟨mid, he, -⟩
    · exact (dealt h hdeal).locks_eq
    · cases he
  · intro db' hrun
    rcases complete_cases hrun with ⟨e, he, -⟩ | ⟨mid, -, hdeal, hdb⟩
    · cases he
    · have hdealt := dealt h hdeal
      exact ⟨mid, hdeal, hdealt.locks_eq, hdealt.done rfl, hdealt.locks_eq ▸ hdb⟩

end

/-! ## Getting at pages -/

/-- The calls made from one database to another are requests of a transaction, and every page that
was seen was granted to it. -/
def Calls (txn : TxnId) (db : Database (σ × LockLog)) (visits : List Visit)
    (db' : Database (σ × LockLog)) : Prop :=
  ∃ calls : LockLog, db'.locks.2 = calls ++ db.locks.2 ∧
    (∀ call ∈ calls, ∃ page access, call.1 = .acquire txn page access) ∧
    ∀ v ∈ visits, calls.Grants txn v.page v.access

/-- An action on behalf of a transaction asks the lock manager for pages and calls it for nothing
else. It sees the pages that were granted to it, changes those that were granted for writing, and
leaves every other resident page alone. -/
structure ByGrants {α : Type} (locking : LockManager σ) (txn : TxnId)
    (x : Action (Database (σ × LockLog)) α) (db : Database (σ × LockLog)) (visits : List Visit) :
    Prop where
  sees : Visits locking.logged txn x db visits
  calls : Calls txn db visits (x.run db).2
  changed : ∀ v ∈ visits, v.change?.isSome = true → v.access = .readWrite
  spared : Visits.Spares visits db.cache (x.run db).2.cache

theorem log_revise (locking : LockManager σ) (txn : TxnId) (page : PageId)
    (edit : Page → Except StorageError (Page × Row)) (db : Database (σ × LockLog)) :
    ((revise locking.logged txn page edit).run db).2.locks.2 =
      (.acquire txn page .readWrite, (locking.acquire txn page .readWrite db.locks.1).1) ::
        db.locks.2 := by
  have hlog := log_fetch locking txn page .readWrite [] db
  rw [revise]
  rcases hfetch : (fetch locking.logged txn page .readWrite []).run db with ⟨e | frame, mid⟩
  · rw [hfetch] at hlog
    rw [Action.run_bind_of_error hfetch]
    exact hlog
  · rw [hfetch] at hlog
    rw [Action.run_bind_of_ok hfetch]
    rcases edit frame.page with e | ⟨p, row⟩ <;> exact hlog

theorem Calls.of_fetch {change? : Page → Option Page}
    (hlog : db'.locks.2 =
      (.acquire txn page access, (locking.acquire txn page access db.locks.1).1) :: db.locks.2) :
    Calls txn db (Visit.ofFetch page access
      ((fetch locking.logged txn page access pinned).run db).1 change?) db' := by
  refine ⟨[_], hlog, List.forall_mem_singleton.2 ⟨page, access, rfl⟩, ?_⟩
  intro v hv
  obtain ⟨frame, hok, rfl⟩ := Visit.mem_ofFetch.1 hv
  have hgranted : (locking.acquire txn page access db.locks.1).1 = .ok () :=
    granted_of_fetch (Prod.ext hok rfl)
  exact List.mem_singleton.2 (Prod.ext rfl hgranted.symm)

theorem calls_of_visits {α : Type} {x : Action (Database (σ × LockLog)) α} {visits : List Visit}
    (h : Visits locking.logged txn x db visits) : Calls txn db visits (x.run db).2 := by
  refine h.lift (fun db => ⟨[], rfl, by simp, by simp⟩) ?_ (fun _ db => ⟨[], rfl, by simp, by simp⟩)
    (fun page access pinned db => .of_fetch (log_fetch locking txn page access pinned db))
    (fun page edit db _ => .of_fetch (log_revise locking txn page edit db))
  rintro a b c vs ws ⟨earlier, hearlier, hvs, hgrants⟩ ⟨later, hlater, hws, hgrants'⟩
  refine ⟨later ++ earlier, ?_, List.forall_mem_append.2 ⟨hws, hvs⟩, ?_⟩
  · rw [hlater, hearlier, List.append_assoc]
  · refine List.forall_mem_append.2 ⟨?_, ?_⟩
    · exact fun v hv => List.mem_append_right _ (hgrants v hv)
    · exact fun v hv => List.mem_append_left _ (hgrants' v hv)

theorem byGrants {α : Type} {x : Action (Database (σ × LockLog)) α} {visits : List Visit}
    (h : Visits locking.logged txn x db visits) (hdb : db.cache.Housed) :
    ByGrants locking txn x db visits :=
  ⟨h, calls_of_visits h, h.access_of_change, (h.spares hdb).2⟩

/-- With a cursor of any transaction, the rows that an action yields or leaves in the buffer were in
the buffer before, or they are on pages that were granted to the transaction. -/
def ReadsByGrants {α : Type} (locking : LockManager σ)
    (x : Action (Cursor × Database (σ × LockLog)) α) (yields : α → List Row)
    (db : Database (σ × LockLog)) : Prop :=
  ∀ c : Cursor, ∃ visits, ByGrants locking c.txn (c.onDatabase x) db visits ∧
    (∀ row ∈ (x.run (c, db)).2.1.buffered, row ∈ c.buffered ∨ row ∈ Visit.rows visits) ∧
    ∀ a, (x.run (c, db)).1 = .ok a → ∀ row ∈ yields a, row ∈ c.buffered ∨ row ∈ Visit.rows visits

theorem readsByGrants {α : Type} {x : Action (Cursor × Database (σ × LockLog)) α}
    {yields : α → List Row} (h : ∀ txn, Cursor.Reads locking.logged txn x yields)
    (hdb : db.cache.Housed) : ReadsByGrants locking x yields db := by
  intro c
  obtain ⟨visits, hvisits, -, hbuffer, hyields⟩ := h c.txn c db rfl
  exact ⟨visits, byGrants hvisits hdb, hbuffer, hyields⟩

end Database

end RowStore
