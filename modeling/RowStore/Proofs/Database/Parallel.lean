import Mathlib.Algebra.BigOperators.Fin
import Mathlib.Algebra.Order.BigOperators.Group.Finset
import Mathlib.Data.List.FinRange
import RowStore.Proofs.Database.Repeated

/-!
# Fetching one page in parallel

Several threads fetch the same page. The cache is locked for a short section at a time only: a
thread looks for the page and, if it is neither there nor being loaded, marks it as being loaded;
then it reads the page, without the lock; then it takes the mark off and installs the page, or
fails, and wakes the threads that found the mark. Whatever order the sections run in, all threads
finish, and they might as well have fetched the page one after another, in the order in which they
finished.
-/

namespace RowStore

/-- How far a thread is with its fetch. -/
inductive Stage where
  | asking
  | looking
  /-- Another thread is loading the page. -/
  | waiting
  | loading
  | loaded (read : Except StorageError Page)
  | done (answer : Except StorageError Frame)
  deriving DecidableEq

namespace Stage

/-- The thread has marked the page as being loaded. -/
def loads : Stage → Bool
  | loading | loaded _ => true
  | _ => false

/-- The thread has a section to run. -/
def ready : Stage → Bool
  | waiting | done _ => false
  | _ => true

/-- What the thread got. -/
def got? : Stage → Option Frame
  | done (.ok frame) => some frame
  | _ => none

/-- What becomes of a thread when the loading of a page has ended. -/
def wake : Stage → Stage
  | waiting => looking
  | stage => stage

theorem got?_eq_some {stage : Stage} {frame : Frame} :
    stage.got? = some frame ↔ stage = done (.ok frame) := by
  rcases stage with _ | _ | _ | _ | _ | ⟨_ | _⟩ <;> simp [got?]

theorem wake_eq_done {stage : Stage} {answer : Except StorageError Frame} :
    stage.wake = done answer ↔ stage = done answer := by
  cases stage <;> simp [wake]

theorem loads_wake (stage : Stage) : stage.wake.loads = stage.loads := by cases stage <;> rfl

theorem wake_ne_waiting (stage : Stage) : stage.wake ≠ waiting := by cases stage <;> simp [wake]

/-- More than the number of sections that a thread may still run, if there are `n` threads, and
enough more to pay for those that it wakes. -/
def weight (n : Nat) : Stage → Nat
  | asking => n + 3
  | looking => n + 2
  | waiting => n + 1
  | loading => n + 1
  | loaded _ => n
  | done _ => 0

theorem weight_wake_le (n : Nat) (stage : Stage) : stage.wake.weight n ≤ stage.weight n + 1 := by
  cases stage <;> simp [wake, weight]

end Stage

/-- The database and the threads at work on it. -/
structure Scene (σ : Type) (n : Nat) where
  db : Database σ
  stage : Fin n → Stage

namespace Scene

variable {σ : Type} {n : Nat} (locking : LockManager σ) (page : PageId) (fetchers : Fin n → Fetcher)

/-- No thread has begun. -/
def opening (db : Database σ) : Scene σ n := ⟨db, fun _ => .asking⟩

/-- A thread runs its next section, if it has one. -/
def turn (i : Fin n) (s : Scene σ n) : Scene σ n :=
  match s.stage i with
  | .asking =>
    match locking.acquire (fetchers i).txn page (fetchers i).access s.db.locks with
    | (.ok _, locks) => ⟨{ s.db with locks := locks }, Function.update s.stage i .looking⟩
    | (.error e, locks) =>
      ⟨{ s.db with locks := locks }, Function.update s.stage i (.done (.error e))⟩
  | .looking =>
    match s.db.cache.request (fetchers i).txn page (fetchers i).access with
    | (.served frame, cache) =>
      ⟨{ s.db with cache := cache }, Function.update s.stage i (.done (.ok frame))⟩
    | (.busy, cache) => ⟨{ s.db with cache := cache }, Function.update s.stage i .waiting⟩
    | (.load, cache) => ⟨{ s.db with cache := cache }, Function.update s.stage i .loading⟩
  | .loading => ⟨s.db, Function.update s.stage i (.loaded (s.db.load page))⟩
  | .loaded read =>
    match s.db.cache.settle (fetchers i).txn page (fetchers i).access (fetchers i).pinned read with
    | (answer, cache) =>
      ⟨{ s.db with cache := cache },
        Function.update (fun j => (s.stage j).wake) i (.done answer)⟩
  | .waiting | .done _ => s

end Scene

/-- Threads run a section each, the first of the list first, as long as they have one. -/
def Scene.follow {σ : Type} {n : Nat} (locking : LockManager σ) (page : PageId)
    (fetchers : Fin n → Fetcher) : List (Fin n) → Scene σ n → Option (Scene σ n)
  | [], s => some s
  | i :: later, s =>
    if (s.stage i).ready then follow locking page fetchers later (s.turn locking page fetchers i)
    else none

/-- The threads that have run a section each, the last one first, and the scene this leads to. -/
inductive Course {σ : Type} {n : Nat} (locking : LockManager σ) (page : PageId)
    (fetchers : Fin n → Fetcher) (db : Database σ) : List (Fin n) → Scene σ n → Prop
  | nil : Course locking page fetchers db [] (Scene.opening db)
  | cons {turns : List (Fin n)} {s : Scene σ n} {i : Fin n} :
      Course locking page fetchers db turns s → (s.stage i).ready = true →
      Course locking page fetchers db (i :: turns) (s.turn locking page fetchers i)

/-! ## All at once -/

namespace Scene

variable {σ : Type} {n : Nat} {locking : LockManager σ} {page : PageId} {fetchers : Fin n → Fetcher}
  {db base base' : Database σ} {s : Scene σ n} {i : Fin n} {order : List (Fin n)}
  {answers : List (Except StorageError Frame)}

/-- Where the threads are whose fetches have taken the database as far as `base`: nobody is loading
the page, or one thread is and others may wait for it. -/
inductive Phase (page : PageId) (base : Database σ) (s : Scene σ n) : Prop
  | idle : s.db.SameButLocks base → (∀ j, (s.stage j).loads = false) →
      (∀ j, s.stage j ≠ .waiting) → Phase page base s
  | busy (i : Fin n) : base.cache.frames.get? page = none →
      s.db.SameButLocks { base with cache := { base.cache with loading := [page] } } →
      s.stage i = .loading ∨ s.stage i = .loaded (base.load page) →
      (∀ j, j ≠ i → (s.stage j).loads = false) → Phase page base s

/-- The threads that are done might as well have fetched the page one after another. -/
structure InTurn (locking : LockManager σ) (page : PageId) (fetchers : Fin n → Fetcher)
    (db : Database σ) (s : Scene σ n) (order : List (Fin n))
    (answers : List (Except StorageError Frame)) (base : Database σ) : Prop where
  run_eq : Database.fetchInTurn locking page (order.map fetchers) db = (answers, base)
  nodup : order.Nodup
  stages_eq : order.map s.stage = answers.map .done
  mem_of_done : ∀ i answer, s.stage i = .done answer → i ∈ order
  phase : s.Phase page base

theorem inTurn_opening (db : Database σ) :
    (opening db : Scene σ n).InTurn locking page fetchers db [] [] db where
  run_eq := rfl
  nodup := .nil
  stages_eq := rfl
  mem_of_done := by simp [opening]
  phase := .idle (.refl db) (fun _ => rfl) (by simp [opening])

/-- What a thread that is loading the page can rely on. -/
theorem Phase.of_loads (h : s.Phase page base) (hloads : (s.stage i).loads = true) :
    base.cache.frames.get? page = none ∧
      s.db.SameButLocks { base with cache := { base.cache with loading := [page] } } ∧
      (s.stage i = .loading ∨ s.stage i = .loaded (base.load page)) ∧
      ∀ j, j ≠ i → (s.stage j).loads = false := by
  cases h with
  | idle _ hnone _ =>
    rw [hnone i] at hloads
    cases hloads
  | busy k habsent hsame hstage hothers =>
    obtain rfl : i = k := by
      by_contra hne
      rw [hothers i hne] at hloads
      cases hloads
    exact ⟨habsent, hsame, hstage, hothers⟩

/-- Nobody is loading the page after a thread's move. -/
theorem Phase.idle_update {next : Database σ} {stages : Fin n → Stage} {stage : Stage}
    (hsame : next.SameButLocks base) (hstage : stage.loads = false) (hwaits : stage ≠ .waiting)
    (hloads : ∀ j, j ≠ i → (stages j).loads = false) (hwaiting : ∀ j, j ≠ i → stages j ≠ .waiting) :
    Phase page base ⟨next, Function.update stages i stage⟩ := by
  refine .idle hsame ?_ ?_
  · exact (Function.forall_update_iff _ fun _ (t : Stage) => t.loads = false).2 ⟨hstage, hloads⟩
  · exact (Function.forall_update_iff _ fun _ (t : Stage) => t ≠ .waiting).2 ⟨hwaits, hwaiting⟩

/-- One thread is loading the page after a thread's move. -/
theorem Phase.busy_update {next : Database σ} {stages : Fin n → Stage} {stage : Stage} {k : Fin n}
    (habsent : base.cache.frames.get? page = none)
    (hsame : next.SameButLocks { base with cache := { base.cache with loading := [page] } })
    (hk : Function.update stages i stage k = .loading ∨
      Function.update stages i stage k = .loaded (base.load page))
    (hstage : i ≠ k → stage.loads = false)
    (hothers : ∀ j, j ≠ k → (stages j).loads = false) :
    Phase page base ⟨next, Function.update stages i stage⟩ :=
  .busy k habsent hsame hk <|
    (Function.forall_update_iff _ fun j (t : Stage) => j ≠ k → t.loads = false).2
      ⟨hstage, fun j _ => hothers j⟩

namespace InTurn

theorem done_of_mem (h : s.InTurn locking page fetchers db order answers base) (hi : i ∈ order) :
    ∃ answer, s.stage i = .done answer := by
  have hmem : s.stage i ∈ answers.map .done := h.stages_eq ▸ List.mem_map_of_mem hi
  obtain ⟨answer, -, hanswer⟩ := List.mem_map.1 hmem
  exact ⟨answer, hanswer.symm⟩

theorem not_mem_of_ready (h : s.InTurn locking page fetchers db order answers base)
    (hready : (s.stage i).ready = true) : i ∉ order := by
  intro hi
  obtain ⟨answer, hanswer⟩ := h.done_of_mem hi
  rw [hanswer] at hready
  cases hready

/-- A thread runs a section that does not end its fetch. -/
theorem move (h : s.InTurn locking page fetchers db order answers base) {next : Database σ}
    {stage : Stage} (hready : (s.stage i).ready = true) (hstage : ∀ answer, stage ≠ .done answer)
    (hphase : Phase page base ⟨next, Function.update s.stage i stage⟩) :
    InTurn locking page fetchers db ⟨next, Function.update s.stage i stage⟩ order answers base := by
  refine ⟨h.run_eq, h.nodup, ?_, ?_, hphase⟩
  · rw [← h.stages_eq]
    refine List.map_congr_left fun j hj => ?_
    have hne : j ≠ i := fun hji => h.not_mem_of_ready hready (hji ▸ hj)
    simp [hne]
  · intro j answer hj
    by_cases hne : j = i
    · subst hne
      exact absurd (by simpa using hj) (hstage answer)
    · exact h.mem_of_done j answer (by simpa [hne] using hj)

/-- A thread runs the section that ends its fetch, and perhaps wakes others. The fetch might have
been made by itself after those that ended before. -/
theorem finish (h : s.InTurn locking page fetchers db order answers base) {next : Database σ}
    (wake : Stage → Stage) {answer : Except StorageError Frame}
    (hready : (s.stage i).ready = true)
    (hwake : ∀ {stage answer}, wake stage = .done answer ↔ stage = .done answer)
    (hrun : (Database.fetch locking (fetchers i).txn page (fetchers i).access
      (fetchers i).pinned).run base = (answer, base'))
    (hphase : Phase page base'
      ⟨next, Function.update (fun j => wake (s.stage j)) i (.done answer)⟩) :
    InTurn locking page fetchers db
      ⟨next, Function.update (fun j => wake (s.stage j)) i (.done answer)⟩ (order ++ [i])
      (answers ++ [answer]) base' := by
  have hfresh := h.not_mem_of_ready hready
  refine ⟨?_, ?_, ?_, ?_, hphase⟩
  · rw [List.map_append, List.map_singleton, Database.fetchInTurn_concat, h.run_eq, hrun]
  · exact List.concat_eq_append ▸ h.nodup.concat hfresh
  · rw [List.map_append, List.map_append, ← h.stages_eq]
    congr 1
    · refine List.map_congr_left fun j hj => ?_
      have hne : j ≠ i := fun hji => hfresh (hji ▸ hj)
      obtain ⟨earlier, hdone⟩ := h.done_of_mem hj
      simp [hne, hdone, hwake.2]
    · simp
  · intro j later hj
    by_cases hne : j = i
    · simp [hne]
    · exact List.mem_append_left _ (h.mem_of_done j later (hwake.1 (by simpa [hne] using hj)))

/-- A thread that has been granted its lock looks for the page. -/
theorem turn_asking (h : s.InTurn locking page fetchers db order answers base)
    (hgrants : locking.Grants) (hstage : s.stage i = .asking) :
    (s.turn locking page fetchers i).InTurn locking page fetchers db order answers base := by
  have hready : (s.stage i).ready = true := hstage ▸ rfl
  rw [turn, hstage, hgrants.acquire_eq]
  refine h.move hready (by simp) ?_
  cases h.phase with
  | idle hsame hloads hwaiting =>
    exact .idle_update (hsame.withLocks _) rfl (by simp) (fun j _ => hloads j)
      fun j _ => hwaiting j
  | busy k habsent hsame hk hothers =>
    have hne : k ≠ i := by
      rintro rfl
      simp [hstage] at hk
    exact .busy_update habsent (hsame.withLocks _) (by simpa [hne] using hk) (fun _ => rfl) hothers

/-- A thread that looks for a page that another one is loading has to wait. -/
theorem turn_busy (h : s.InTurn locking page fetchers db order answers base) {k : Fin n}
    (hstage : s.stage i = .looking) (habsent : base.cache.frames.get? page = none)
    (hsame : s.db.SameButLocks { base with cache := { base.cache with loading := [page] } })
    (hk : s.stage k = .loading ∨ s.stage k = .loaded (base.load page))
    (hothers : ∀ j, j ≠ k → (s.stage j).loads = false) :
    (s.turn locking page fetchers i).InTurn locking page fetchers db order answers base := by
  have hready : (s.stage i).ready = true := hstage ▸ rfl
  have hrequest : s.db.cache.request (fetchers i).txn page (fetchers i).access =
      (.busy, s.db.cache) := by
    simp [hsame.cache_eq, Cache.request, habsent]
  have hne : k ≠ i := by
    rintro rfl
    simp [hstage] at hk
  rw [turn, hstage, hrequest]
  exact h.move hready (by simp)
    (.busy_update habsent hsame (by simpa [hne] using hk) (fun _ => rfl) hothers)

/-- A thread that looks for a page when nobody is loading it is served, or marks it. -/
theorem turn_free (h : s.InTurn locking page fetchers db order answers base)
    (hgrants : locking.Grants) (hloading : base.cache.loading = [])
    (hstage : s.stage i = .looking) (hsame : s.db.SameButLocks base)
    (hloads : ∀ j, (s.stage j).loads = false) (hwaiting : ∀ j, s.stage j ≠ .waiting) :
    ∃ order' answers' base', (s.turn locking page fetchers i).InTurn locking page fetchers db
      order' answers' base' := by
  have hready : (s.stage i).ready = true := hstage ▸ rfl
  cases hf : base.cache.frames.get? page with
  | some frame =>
    have hrequest : s.db.cache.request (fetchers i).txn page (fetchers i).access =
        (.served { frame with
            page := Cache.touch (fetchers i).txn (fetchers i).access frame.page },
          (base.cache.request (fetchers i).txn page (fetchers i).access).2) := by
      simp [hsame.cache_eq, Cache.request, hf]
    have hrun := Database.fetch_of_hit (fetchers i).pinned
      (hgrants.acquire_eq (fetchers i).txn page (fetchers i).access base.locks) hf
    rw [turn, hstage, hrequest]
    exact ⟨_, _, _, h.finish id hready Iff.rfl hrun (.idle_update (hsame.withCache _ _) rfl
      (by simp) (fun j _ => hloads j) fun j _ => hwaiting j)⟩
  | none =>
    have hrequest : s.db.cache.request (fetchers i).txn page (fetchers i).access =
        (.load, { base.cache with loading := [page] }) := by
      simp [hsame.cache_eq, Cache.request, hf, hloading]
    rw [turn, hstage, hrequest]
    exact ⟨_, _, _, h.move hready (by simp) (.busy_update hf (hsame.withCache _ _)
      (.inl (Function.update_self ..)) (fun hne => absurd rfl hne) fun j _ => hloads j)⟩

/-- A thread that has marked the page reads what is stored. -/
theorem turn_loading (h : s.InTurn locking page fetchers db order answers base)
    (hstage : s.stage i = .loading) :
    (s.turn locking page fetchers i).InTurn locking page fetchers db order answers base := by
  have hready : (s.stage i).ready = true := hstage ▸ rfl
  have hloads : (s.stage i).loads = true := hstage ▸ rfl
  obtain ⟨habsent, hsame, -, hothers⟩ := h.phase.of_loads hloads
  have hload : s.db.load page = base.load page := by
    rw [hsame]
    rfl
  rw [turn, hstage]
  exact h.move hready (by simp) (.busy_update habsent hsame
    (.inr (hload ▸ Function.update_self ..)) (fun hne => absurd rfl hne) hothers)

/-- A thread that has read the page installs it or fails, and all that wait look again. -/
theorem turn_loaded (h : s.InTurn locking page fetchers db order answers base)
    (hgrants : locking.Grants) (hloading : base.cache.loading = [])
    {read : Except StorageError Page} (hstage : s.stage i = .loaded read) :
    ∃ order' answers' base', (s.turn locking page fetchers i).InTurn locking page fetchers db
      order' answers' base' := by
  have hready : (s.stage i).ready = true := hstage ▸ rfl
  have hloads : (s.stage i).loads = true := hstage ▸ rfl
  obtain ⟨habsent, hsame, hread, hothers⟩ := h.phase.of_loads hloads
  obtain rfl : read = base.load page := by simpa [hstage] using hread
  have hrun := Database.fetch_of_unmarked (fetchers i).pinned
    (hgrants.acquire_eq (fetchers i).txn page (fetchers i).access base.locks) habsent
    (by simp [hloading])
  rw [hloading] at hrun
  rw [turn, hstage, hsame.cache_eq]
  refine ⟨_, _, _, h.finish Stage.wake hready Stage.wake_eq_done hrun
    (.idle_update (hsame.withCache _ _) rfl (by simp) ?_ fun j _ => Stage.wake_ne_waiting _)⟩
  intro j hj
  rw [Stage.loads_wake]
  exact hothers j hj

/-- One thread runs one section, whichever comes next. -/
theorem turn (h : s.InTurn locking page fetchers db order answers base) (hgrants : locking.Grants)
    (hloading : base.cache.loading = []) (hready : (s.stage i).ready = true) :
    ∃ order' answers' base', (s.turn locking page fetchers i).InTurn locking page fetchers db
      order' answers' base' := by
  cases hstage : s.stage i with
  | asking => exact ⟨_, _, _, h.turn_asking hgrants hstage⟩
  | looking =>
    cases h.phase with
    | idle hsame hloads hwaiting =>
      exact h.turn_free hgrants hloading hstage hsame hloads hwaiting
    | busy k habsent hsame hk hothers =>
      exact ⟨_, _, _, h.turn_busy hstage habsent hsame hk hothers⟩
  | loading => exact ⟨_, _, _, h.turn_loading hstage⟩
  | loaded read => exact h.turn_loaded hgrants hloading hstage
  | waiting | done =>
    rw [hstage] at hready
    cases hready

/-- What the fetches that ended have come to. -/
theorem sought (h : s.InTurn locking page fetchers db order answers base)
    (hgrants : locking.Grants) : Database.Sought page db answers base := by
  have hsought := Database.sought hgrants page (order.map fetchers) db
  rwa [h.run_eq] at hsought

end InTurn

/-- What holds while threads fetch a page: one of them at most is loading it, and the mark says so;
a page is not marked once it is there; all that got it hold the copy that is there; and at most one
copy was made and one other page given up. -/
structure Orderly (page : PageId) (db : Database σ) (s : Scene σ n) : Prop where
  one_loader : ∀ i j, (s.stage i).loads = true → (s.stage j).loads = true → i = j
  mem_loading_iff : ∀ q, q ∈ s.db.cache.loading ↔ q = page ∧ ∃ i, (s.stage i).loads = true
  apart : s.db.cache.isResident page = true → page ∉ s.db.cache.loading
  one_copy : ∀ i frame, (s.stage i).got? = some frame →
    ∃ copy, s.db.cache.frames.get? page = some copy ∧ copy.handle = frame.handle
  serials_le : s.db.cache.nextSerial ≤ db.cache.nextSerial + 1
  evictions_le : s.db.cache.evictions ≤ db.cache.evictions + 1
  others : ∃ victim, ∀ q, q ≠ page → q ≠ victim →
    s.db.cache.frames.get? q = db.cache.frames.get? q

/-- All threads are done, and in this order they might have fetched the page one after another:
with the same answers, and with the same database left but for the state of the lock manager. -/
structure FetchedInTurn (locking : LockManager σ) (page : PageId) (fetchers : Fin n → Fetcher)
    (db : Database σ) (s : Scene σ n) (order : List (Fin n)) : Prop where
  perm : order.Perm (List.finRange n)
  stages_eq : order.map s.stage =
    (Database.fetchInTurn locking page (order.map fetchers) db).1.map .done
  same : s.db.SameButLocks (Database.fetchInTurn locking page (order.map fetchers) db).2
  loading : s.db.cache.loading = []

/-- The cache is as the fetches that ended have left it, but for the mark. -/
theorem Phase.cache_eq (h : s.Phase page base) :
    s.db.cache = { base.cache with loading := s.db.cache.loading } := by
  cases h with
  | idle hsame _ _ => rw [hsame.cache_eq]
  | busy _ _ hsame _ _ => rw [hsame.cache_eq]

theorem Phase.one_loader (h : s.Phase page base) {j : Fin n} (hi : (s.stage i).loads = true)
    (hj : (s.stage j).loads = true) : i = j := by
  obtain ⟨-, -, -, hothers⟩ := h.of_loads hj
  by_contra hne
  rw [hothers i hne] at hi
  cases hi

theorem Phase.mem_loading_iff (h : s.Phase page base) (hloading : base.cache.loading = [])
    (q : PageId) : q ∈ s.db.cache.loading ↔ q = page ∧ ∃ i, (s.stage i).loads = true := by
  cases h with
  | idle hsame hloads _ => simp [hsame.cache_eq, hloading, hloads]
  | busy k _ hsame hk _ =>
    have hloads : (s.stage k).loads = true := by
      rcases hk with hk | hk <;> rw [hk] <;> rfl
    simp only [hsame.cache_eq, List.mem_singleton, iff_self_and]
    exact fun _ => ⟨k, hloads⟩

theorem Phase.apart (h : s.Phase page base) (hloading : base.cache.loading = [])
    (hresident : s.db.cache.isResident page = true) : page ∉ s.db.cache.loading := by
  intro hmem
  obtain ⟨-, i, hi⟩ := (h.mem_loading_iff hloading page).1 hmem
  obtain ⟨habsent, hsame, -, -⟩ := h.of_loads hi
  rw [hsame.cache_eq] at hresident
  cases (Cache.isResident_of_absent habsent).symm.trans hresident

namespace InTurn

theorem mem_answers (h : s.InTurn locking page fetchers db order answers base)
    {answer : Except StorageError Frame} (hi : s.stage i = .done answer) : answer ∈ answers := by
  have hmem : s.stage i ∈ answers.map .done :=
    h.stages_eq ▸ List.mem_map_of_mem (h.mem_of_done i answer hi)
  simpa [hi] using hmem

theorem orderly (h : s.InTurn locking page fetchers db order answers base)
    (hgrants : locking.Grants) (hdb : db.cache.loading = []) : s.Orderly page db := by
  have hsought := h.sought hgrants
  have hcache := h.phase.cache_eq
  obtain ⟨hloading, hevictions, hserials, hothers⟩ := hsought.cost_le
  rw [hdb] at hloading
  refine ⟨fun i j => h.phase.one_loader, h.phase.mem_loading_iff hloading,
    h.phase.apart hloading, ?_, ?_, ?_, ?_⟩
  · intro i frame hi
    rw [hcache]
    exact hsought.resident_of_ok (h.mem_answers (Stage.got?_eq_some.1 hi))
  · rw [hcache]
    exact hserials
  · rw [hcache]
    exact hevictions
  · rw [hcache]
    exact hothers

/-- If no thread has a section left to run then all are done: nobody waits in vain. -/
theorem fetchedInTurn (h : s.InTurn locking page fetchers db order answers base)
    (hgrants : locking.Grants) (hdb : db.cache.loading = [])
    (hrest : ∀ i, (s.stage i).ready = false) :
    s.FetchedInTurn locking page fetchers db order := by
  obtain ⟨hloading, -⟩ := (h.sought hgrants).cost_le
  rw [hdb] at hloading
  cases h.phase with
  | busy k _ _ hk _ =>
    have hready := hrest k
    rcases hk with hk | hk <;> rw [hk] at hready <;> cases hready
  | idle hsame _ hwaiting =>
    refine ⟨(List.perm_ext_iff_of_nodup h.nodup (List.nodup_finRange n)).2 fun i => ?_, ?_, ?_, ?_⟩
    · have hready := hrest i
      have hne := hwaiting i
      cases hstage : s.stage i with
      | done answer => simp [h.mem_of_done i answer hstage]
      | waiting => exact absurd hstage hne
      | asking | looking | loading | loaded =>
        rw [hstage] at hready
        cases hready
    · rw [h.run_eq]
      exact h.stages_eq
    · rw [h.run_eq]
      exact hsame
    · rw [hsame.cache_eq, hloading]

end InTurn

/-! ## The number of sections -/

/-- A bound on the number of sections that are still to come. -/
def weight (s : Scene σ n) : Nat := ∑ i, (s.stage i).weight n

theorem weight_update (stages : Fin n → Stage) (next : Database σ) (i : Fin n) (stage : Stage) :
    weight ⟨next, Function.update stages i stage⟩ =
      stage.weight n + ∑ j ∈ Finset.univ.erase i, (stages j).weight n := by
  rw [weight, ← Finset.add_sum_erase _ _ (Finset.mem_univ i)]
  congr 1
  · simp
  · refine Finset.sum_congr rfl fun j hj => ?_
    simp [Finset.ne_of_mem_erase hj]

theorem weight_eq (s : Scene σ n) (i : Fin n) :
    s.weight = (s.stage i).weight n + ∑ j ∈ Finset.univ.erase i, (s.stage j).weight n := by
  rw [← weight_update s.stage s.db i, Function.update_eq_self]

/-- Those that are woken look again, one section each. -/
theorem sum_wake_le (stages : Fin n → Stage) (i : Fin n) :
    ∑ j ∈ Finset.univ.erase i, (stages j).wake.weight n + 1 ≤
      ∑ j ∈ Finset.univ.erase i, (stages j).weight n + n := by
  have hcard : (Finset.univ.erase i : Finset (Fin n)).card + 1 = n := by
    rw [Finset.card_erase_add_one (Finset.mem_univ i), Finset.card_univ, Fintype.card_fin]
  calc ∑ j ∈ Finset.univ.erase i, (stages j).wake.weight n + 1
      ≤ ∑ j ∈ Finset.univ.erase i, ((stages j).weight n + 1) + 1 := by
        exact Nat.add_le_add_right (Finset.sum_le_sum fun j _ => Stage.weight_wake_le n _) 1
    _ = ∑ j ∈ Finset.univ.erase i, (stages j).weight n + n := by
        rw [Finset.sum_add_distrib, Finset.sum_const, smul_eq_mul, mul_one]
        omega

theorem weight_turn_lt (locking : LockManager σ) (page : PageId) (fetchers : Fin n → Fetcher)
    (hready : (s.stage i).ready = true) : (s.turn locking page fetchers i).weight < s.weight := by
  rw [s.weight_eq i]
  cases hstage : s.stage i with
  | asking =>
    rw [turn, hstage]
    rcases locking.acquire (fetchers i).txn page (fetchers i).access s.db.locks with ⟨_ | _, locks⟩
    all_goals
      dsimp only
      rw [weight_update]
      simp [Stage.weight]
  | looking =>
    rw [turn, hstage]
    rcases s.db.cache.request (fetchers i).txn page (fetchers i).access with ⟨_ | _ | _, cache⟩
    all_goals
      dsimp only
      rw [weight_update]
      simp [Stage.weight]
  | loading =>
    rw [turn, hstage, weight_update]
    simp [Stage.weight]
  | loaded read =>
    have hwake := sum_wake_le s.stage i
    rw [turn, hstage, weight_update]
    show 0 + _ < n + _
    omega
  | waiting | done =>
    rw [hstage] at hready
    cases hready

end Scene

namespace Course

variable {σ : Type} {n : Nat} {locking : LockManager σ} {page : PageId} {fetchers : Fin n → Fetcher}
  {db : Database σ} {s : Scene σ n} {turns : List (Fin n)}

theorem length_add_weight_le (h : Course locking page fetchers db turns s) :
    turns.length + s.weight ≤ n * (n + 3) := by
  induction h with
  | nil => simp [Scene.weight, Scene.opening, Stage.weight]
  | cons _ hready ih =>
    have hlt := Scene.weight_turn_lt locking page fetchers hready
    rw [List.length_cons]
    omega

theorem inTurn (h : Course locking page fetchers db turns s) (hgrants : locking.Grants)
    (hdb : db.cache.loading = []) :
    ∃ order answers base, s.InTurn locking page fetchers db order answers base := by
  induction h with
  | nil => exact ⟨_, _, _, Scene.inTurn_opening db⟩
  | cons _ hready ih =>
    obtain ⟨order, answers, base, hturn⟩ := ih
    obtain ⟨hloading, -⟩ := (hturn.sought hgrants).cost_le
    exact hturn.turn hgrants (hloading.trans hdb) hready

/-- Threads that fetch one page at the same time, whatever order their sections run in: they keep
order among themselves, they come to an end, and then they might have fetched it one after
another. -/
theorem serializable (h : Course locking page fetchers db turns s) (hgrants : locking.Grants)
    (hdb : db.cache.loading = []) :
    s.Orderly page db ∧ turns.length ≤ n * (n + 3) ∧
      ((∀ i, (s.stage i).ready = false) →
        ∃ order, s.FetchedInTurn locking page fetchers db order) := by
  obtain ⟨order, answers, base, hturn⟩ := h.inTurn hgrants hdb
  refine ⟨hturn.orderly hgrants hdb, ?_, ?_⟩
  · have hbound := h.length_add_weight_le
    omega
  · intro hrest
    exact ⟨order, hturn.fetchedInTurn hgrants hdb hrest⟩

theorem follow (h : Course locking page fetchers db turns s) {later : List (Fin n)}
    {last : Scene σ n} (hfollow : s.follow locking page fetchers later = some last) :
    Course locking page fetchers db (later.reverse ++ turns) last := by
  induction later generalizing turns s with
  | nil => exact Option.some.inj hfollow ▸ h
  | cons i later ih =>
    rw [Scene.follow] at hfollow
    split at hfollow
    · next hready =>
      rw [List.reverse_cons, List.append_assoc]
      exact ih (h.cons hready) hfollow
    · cases hfollow

/-- Three threads fetch a page, in a cache for one page. The one that is loading it finds that the
other page is locked for writing, so it fails; of the two that wait, one loads the page for
writing, and the other one gets this copy. -/
theorem serializable_past_exhausted :
    ∃ (steps : List (Step Unit)) (db : Database Unit) (fetchers : Fin 3 → Fetcher)
      (turns : List (Fin 3)) (s : Scene Unit 3) (order : List (Fin 3)) (first second : Frame),
      Run .permissive (Database.ofTable Database.numbers 9 1) steps db ∧
        LockManager.permissive.Grants ∧ db.cache.loading = [] ∧
        Course .permissive ⟨TableFile.idOf ["t"], 0⟩ fetchers db turns s ∧
        s.stage 0 = .done (.error .cacheExhausted) ∧ s.stage 1 = .done (.ok first) ∧
        s.stage 2 = .done (.ok second) ∧ first.handle = second.handle ∧
        s.FetchedInTurn .permissive ⟨TableFile.idOf ["t"], 0⟩ fetchers db order := by
  let played := Database.play .permissive [] (Database.ofTable Database.numbers 9 1)
    [.insert ⟨1⟩ (TableFile.idOf ["t"]) (Database.number 5),
      .insert ⟨1⟩ (TableFile.idOf ["t"]) (Database.number 6),
      .complete ⟨1⟩ true,
      .insert ⟨1⟩ (TableFile.idOf ["t"]) (Database.number 7),
      .complete ⟨1⟩ true]
  let fetchers : Fin 3 → Fetcher :=
    ![⟨⟨1⟩, .readOnly, [⟨⟨TableFile.idOf ["t"], 1⟩, 1⟩]⟩, ⟨⟨2⟩, .readWrite, []⟩,
      ⟨⟨3⟩, .readOnly, []⟩]
  let later : List (Fin 3) := [0, 1, 2, 0, 1, 0, 2, 0, 1, 2, 1, 1, 2]
  have hrun : Run .permissive (Database.ofTable Database.numbers 9 1) played.1 played.2 :=
    Run.of_calls _ _ _ (by decide +kernel)
  have hgrants : LockManager.permissive.Grants := fun _ _ _ _ => rfl
  have hloading : played.2.cache.loading = [] := by decide +kernel
  have hgot : ∃ s, (Scene.opening played.2).follow .permissive ⟨TableFile.idOf ["t"], 0⟩ fetchers
      later = some s ∧ s.stage 0 = .done (.error .cacheExhausted) ∧
      (s.stage 1).got?.isSome = true ∧ (s.stage 2).got?.isSome = true := by
    refine ⟨_, Option.some_get (by decide +kernel) |>.symm, ?_, ?_, ?_⟩ <;> decide +kernel
  obtain ⟨s, hfollow, hfailed, hfirst, hsecond⟩ := hgot
  obtain ⟨first, hfirst⟩ := Option.isSome_iff_exists.1 hfirst
  obtain ⟨second, hsecond⟩ := Option.isSome_iff_exists.1 hsecond
  have hcourse := Course.nil.follow hfollow
  obtain ⟨horderly, -, hdone⟩ := hcourse.serializable hgrants hloading
  obtain ⟨copy, hcopy, hhandle⟩ := horderly.one_copy 1 first hfirst
  obtain ⟨same, hsame, hsecondHandle⟩ := horderly.one_copy 2 second hsecond
  obtain rfl := Option.some.inj (hcopy.symm.trans hsame)
  have hrest : ∀ i, (s.stage i).ready = false := by
    rw [Fin.forall_fin_succ, Fin.forall_fin_two]
    exact ⟨hfailed ▸ rfl, Stage.got?_eq_some.1 hfirst ▸ rfl, Stage.got?_eq_some.1 hsecond ▸ rfl⟩
  obtain ⟨order, hinturn⟩ := hdone hrest
  exact ⟨_, _, fetchers, _, s, order, first, second, hrun, hgrants, hloading, hcourse, hfailed,
    Stage.got?_eq_some.1 hfirst, Stage.got?_eq_some.1 hsecond, hhandle.symm.trans hsecondHandle,
    hinturn⟩

end Course

end RowStore
