import RowStore.Proofs.Cache.Ranking
import RowStore.Proofs.Database.Session

/-!
# What the cache remembers of the moves

The counters and the ranking of a cache that began empty can be read off the moves made since: every
successful fetch is a hit or a miss and takes the next time, the standing of a resident page is the
number of times it was fetched since it was last loaded and the time of the last one, and every page
that was loaded is resident still, was evicted, or was discarded.
-/

namespace RowStore

/-! ## Reading off the moves -/

namespace History

variable {σ : Type} {m : Move σ} {moves : List (Move σ)} {page : PageId}

/-- The number of successful fetches. -/
def gets (moves : List (Move σ)) : Nat := moves.countP fun m => m.got?.isSome

/-- The number of resident pages that were discarded. -/
def drops (moves : List (Move σ)) : Nat := moves.countP fun m => m.dropped?.isSome

/-- The number of successful fetches of a page since it was last loaded. -/
def uses (page : PageId) : List (Move σ) → Nat
  | [] => 0
  | m :: earlier =>
    if m.loaded? = some page then 1
    else if m.got? = some page then uses page earlier + 1
    else uses page earlier

/-- When a page was last fetched. The time is the number of successful fetches, with this one. -/
def lastGet (page : PageId) : List (Move σ) → Nat
  | [] => 0
  | m :: earlier => if m.got? = some page then gets (m :: earlier) else lastGet page earlier

theorem got?_of_loaded? (h : m.loaded? = some page) :
    m.got? = some page ∧ m.before.cache.isResident page = false := by
  obtain ⟨hgot, habsent⟩ := Option.filter_eq_some_iff.1 h
  exact ⟨hgot, by simpa using habsent⟩

theorem gets_cons_of_got (h : m.got? = some page) : gets (m :: moves) = gets moves + 1 := by
  simp [gets, h]

theorem gets_cons_of_none (h : m.got? = none) : gets (m :: moves) = gets moves := by
  simp [gets, h]

theorem drops_cons_of_none (h : m.dropped? = none) : drops (m :: moves) = drops moves := by
  simp [drops, h]

theorem drops_cons_of_dropped (h : m.dropped? = some page) :
    drops (m :: moves) = drops moves + 1 := by simp [drops, h]

/-- A move that does not fetch a page leaves its uses. -/
theorem uses_cons_of_ne (h : m.got? ≠ some page) : uses page (m :: moves) = uses page moves := by
  have hloaded : m.loaded? ≠ some page := fun hl => h (got?_of_loaded? hl).1
  simp [uses, h, hloaded]

theorem uses_cons_of_loaded (h : m.loaded? = some page) : uses page (m :: moves) = 1 := by
  simp [uses, h]

theorem uses_cons_of_served (h : m.got? = some page) (hr : m.before.cache.isResident page = true) :
    uses page (m :: moves) = uses page moves + 1 := by
  have hloaded : m.loaded? ≠ some page := fun hl => by simp [(got?_of_loaded? hl).2] at hr
  simp [uses, h, hloaded]

theorem lastGet_cons_of_ne (h : m.got? ≠ some page) :
    lastGet page (m :: moves) = lastGet page moves := by simp [lastGet, h]

theorem lastGet_cons_of_got (h : m.got? = some page) :
    lastGet page (m :: moves) = gets moves + 1 := by
  simp [lastGet, h, gets_cons_of_got h]

theorem gets_le_cons (m : Move σ) (moves : List (Move σ)) : gets moves ≤ gets (m :: moves) :=
  (List.sublist_cons_self m moves).countP_le

theorem uses_le_gets (page : PageId) (moves : List (Move σ)) : uses page moves ≤ gets moves := by
  induction moves with
  | nil => exact Nat.le_refl 0
  | cons m moves ih =>
    by_cases hgot : m.got? = some page
    · rw [gets_cons_of_got hgot, uses]
      split <;> omega
    · rw [uses_cons_of_ne hgot]
      exact Nat.le_trans ih (gets_le_cons m moves)

theorem lastGet_le_gets (page : PageId) (moves : List (Move σ)) :
    lastGet page moves ≤ gets moves := by
  induction moves with
  | nil => exact Nat.le_refl 0
  | cons m moves ih =>
    rw [lastGet]
    split
    · exact Nat.le_refl _
    · exact Nat.le_trans ih (gets_le_cons m moves)

end History

/-! ## The cache keeps account -/

namespace Cache

variable {c : Cache} {page q : PageId} {frame : Frame}

theorem isResident_of_get? (h : c.frames.get? page = some frame) : c.isResident page = true := by
  simp [isResident, Keyed.contains, h]

theorem get?_of_absent (h : c.isResident page = false) : c.frames.get? page = none := by
  simpa [isResident, Keyed.contains] using h

theorem isResident_of_absent (h : c.frames.get? page = none) : c.isResident page = false := by
  simp [isResident, Keyed.contains, h]

theorem isResident_drop (c : Cache) (page q : PageId) :
    (c.drop page).isResident q = if q = page then false else c.isResident q := by
  simp only [isResident, Keyed.contains, get?_drop]
  split <;> rfl

theorem isResident_install (c : Cache) (page : PageId) (p : Page) (q : PageId) :
    (c.install page p).2.isResident q = if q = page then true else c.isResident q := by
  simp only [isResident, Keyed.contains, get?_install]
  split <;> rfl

theorem isResident_of_keys {d : Cache} (h : d.frames.keys = c.frames.keys) (q : PageId) :
    d.isResident q = c.isResident q := by
  have hmem : (d.frames.get? q).isSome ↔ (c.frames.get? q).isSome := by
    rw [← Keyed.mem_keys, ← Keyed.mem_keys, h]
  exact Bool.eq_iff_iff.2 hmem

theorem keys_modify (c : Cache) (h : Handle) (f : Page → Page) :
    (c.modify h f).frames.keys = c.frames.keys := Keyed.keys_adjust _ _ _

/-- What a fetch of a resident page leaves. -/
theorem request_of_resident (txn : TxnId) (access : Access) (hf : c.frames.get? page = some frame) :
    (c.request txn page access).2 =
      { c with
        frames := c.frames.adjust page fun _ =>
          { frame with page := touch txn access frame.page }
        ranking := c.ranking.access page
        hits := c.hits + 1 } := by
  simp [request, hf]

/-- The cache began empty, with room for so many pages, and keeps account of the moves made since:
in its counters, and in the standing of every page. -/
structure Records {σ : Type} (c : Cache) (capacity : Nat) (moves : List (Move σ)) : Prop where
  wellKeyed : c.frames.WellKeyed
  housed : c.Housed
  ranking : c.ranking.WellFormed
  standing : ∀ page, c.ranking.standings.get? page =
    if c.isResident page then
      some ⟨History.uses page moves, History.lastGet page moves, page⟩
    else none
  clock : c.ranking.clock = History.gets moves
  loading : c.loading = []
  capacity_eq : c.capacity = max capacity 1
  size_le : c.size ≤ c.capacity
  fetches : c.hits + c.misses = History.gets moves
  balance : c.misses = c.size + c.evictions + History.drops moves

theorem records_ofCapacity (σ : Type) (capacity : Nat) :
    (ofCapacity capacity).Records capacity ([] : List (Move σ)) where
  wellKeyed := Keyed.wellKeyed_empty
  housed := housed_ofCapacity capacity
  ranking := Ranking.wellFormed_empty
  standing _ := rfl
  clock := rfl
  loading := rfl
  capacity_eq := rfl
  size_le := Nat.zero_le _
  fetches := rfl
  balance := rfl

namespace Records

variable {σ : Type} {capacity : Nat} {moves : List (Move σ)} {m : Move σ} {d : Cache}

/-- A move that is no fetch, and changes neither which pages are resident nor any count. -/
theorem keep (h : c.Records capacity moves) (hgot : m.got? = none) (hdropped : m.dropped? = none)
    (hkeys : d.frames.keys = c.frames.keys) (hhoused : d.Housed) (hranking : d.ranking = c.ranking)
    (hloading : d.loading = c.loading) (hcapacity : d.capacity = c.capacity)
    (hhits : d.hits = c.hits) (hmisses : d.misses = c.misses)
    (hevictions : d.evictions = c.evictions) : d.Records capacity (m :: moves) := by
  have hsize : d.size = c.size := by
    simpa [Keyed.keys, size, Keyed.size] using congrArg List.length hkeys
  refine ⟨?_, hhoused, hranking ▸ h.ranking, ?_, ?_, ?_, ?_, ?_, ?_, ?_⟩
  · rw [Keyed.WellKeyed, hkeys]
    exact h.wellKeyed
  · intro q
    have hne : m.got? ≠ some q := by simp [hgot]
    rw [hranking, h.standing, isResident_of_keys hkeys, History.uses_cons_of_ne hne,
      History.lastGet_cons_of_ne hne]
  · rw [hranking, h.clock, History.gets_cons_of_none hgot]
  · exact hloading.trans h.loading
  · exact hcapacity.trans h.capacity_eq
  · rw [hsize, hcapacity]
    exact h.size_le
  · rw [hhits, hmisses, h.fetches, History.gets_cons_of_none hgot]
  · rw [hmisses, hsize, hevictions, h.balance, History.drops_cons_of_none hdropped]

/-- A resident page is dropped and nothing else changes, except what is counted for it. -/
theorem dropResident (h : c.Records capacity moves) (hf : c.frames.get? page = some frame)
    {later : List (Move σ)} {evictions : Nat}
    (huses : ∀ q, History.uses q later = History.uses q moves)
    (hlast : ∀ q, History.lastGet q later = History.lastGet q moves)
    (hgets : History.gets later = History.gets moves)
    (hcount : evictions + History.drops later = c.evictions + History.drops moves + 1) :
    Records { c.drop page with evictions := evictions } capacity later ∧
      (c.drop page).size < c.capacity := by
  have hsize : (c.drop page).size + 1 = c.size := h.wellKeyed.size_erase hf
  have hle := h.size_le
  refine ⟨⟨h.wellKeyed.erase _, ?_, h.ranking.remove page, ?_, ?_, h.loading, h.capacity_eq, ?_,
    ?_, ?_⟩, by omega⟩
  · intro q f hq
    have hq : (c.drop page).frames.get? q = some f := hq
    rw [get?_drop] at hq
    split at hq
    · cases hq
    · exact h.housed q f hq
  · intro q
    show (c.ranking.remove page).standings.get? q = if (c.drop page).isResident q then _ else _
    rw [Ranking.get?_remove, isResident_drop, h.standing, huses, hlast]
    split <;> rfl
  · show (c.ranking.remove page).clock = _
    rw [hgets, ← h.clock, Ranking.remove]
    split <;> rfl
  · show (c.drop page).size ≤ c.capacity
    omega
  · exact h.fetches.trans hgets.symm
  · show c.misses = (c.drop page).size + evictions + History.drops later
    have := h.balance
    omega

theorem makeRoom (h : c.Records capacity moves) {pinned : List Handle} {roomy : Cache}
    (hroom : c.makeRoom pinned = .ok roomy) :
    roomy.Records capacity moves ∧ roomy.size < roomy.capacity := by
  rcases makeRoom_eq_ok hroom with ⟨hlt, rfl⟩ | ⟨victim, frame, hf, -, rfl⟩
  · exact ⟨h, hlt⟩
  · exact h.dropResident hf (fun _ => rfl) (fun _ => rfl) rfl (by omega)

theorem drop (h : c.Records capacity moves) (hbefore : m.before.cache = c)
    (hdeed : m.deed = .discard page) : (c.drop page).Records capacity (m :: moves) := by
  have hgot : m.got? = none := by simp [Move.got?, hdeed]
  have hne (q : PageId) : m.got? ≠ some q := by simp [hgot]
  cases hf : c.frames.get? page with
  | some frame =>
    have hdropped : m.dropped? = some page := by
      simp [Move.dropped?, hdeed, hbefore, isResident_of_get? hf]
    refine (h.dropResident hf (fun q => History.uses_cons_of_ne (hne q))
      (fun q => History.lastGet_cons_of_ne (hne q)) (History.gets_cons_of_none hgot) ?_).1
    rw [History.drops_cons_of_dropped hdropped]
    rfl
  | none =>
    have hdropped : m.dropped? = none := by
      simp [Move.dropped?, hdeed, hbefore, isResident_of_absent hf]
    have hranking : c.ranking.standings.get? page = none := by
      simp [h.standing, isResident_of_absent hf]
    have hsame : c.drop page = c := by
      simp [Cache.drop, hf, Keyed.erase_of_absent hf, Ranking.remove, hranking]
    rw [hsame]
    exact h.keep hgot hdropped rfl h.housed rfl rfl rfl rfl rfl rfl

/-- The standing of every page after one of them was used. -/
theorem standing_access (h : c.Records capacity moves) (hgot : m.got? = some page)
    (huses : (c.uses? page).getD 0 + 1 = History.uses page (m :: moves)) (hd : d.isResident page)
    (hother : ∀ q, q ≠ page → d.isResident q = c.isResident q) (q : PageId) :
    (c.ranking.access page).standings.get? q =
      if d.isResident q then
        some ⟨History.uses q (m :: moves), History.lastGet q (m :: moves), q⟩
      else none := by
  rw [Ranking.get?_access]
  split
  · next hq =>
    subst hq
    rw [if_pos hd, ← huses, History.lastGet_cons_of_got hgot, h.clock]
    rfl
  · next hq =>
    have hne : m.got? ≠ some q := by
      rw [hgot]
      exact fun heq => hq (Option.some.inj heq).symm
    rw [h.standing, hother q hq, History.uses_cons_of_ne hne, History.lastGet_cons_of_ne hne]

/-- What the ranking counts for a page. -/
theorem uses?_eq (h : c.Records capacity moves) (page : PageId) :
    c.uses? page = if c.isResident page then some (History.uses page moves) else none := by
  rw [Cache.uses?, Ranking.uses?, h.standing]
  split <;> rfl

theorem serve (h : c.Records capacity moves) (hbefore : m.before.cache = c)
    (hgot : m.got? = some page) (hdropped : m.dropped? = none) (txn : TxnId) (access : Access)
    (hf : c.frames.get? page = some frame) :
    (c.request txn page access).2.Records capacity (m :: moves) := by
  have hresident := isResident_of_get? hf
  have hkeys : (c.request txn page access).2.frames.keys = c.frames.keys := by
    rw [request_of_resident txn access hf]
    exact Keyed.keys_adjust _ _ _
  have hsame := isResident_of_keys hkeys
  have huses : (c.uses? page).getD 0 + 1 = History.uses page (m :: moves) := by
    rw [h.uses?_eq, if_pos hresident,
      History.uses_cons_of_served hgot (by rw [hbefore]; exact hresident)]
    rfl
  have hhoused : (c.request txn page access).2.Housed := by
    intro q f hq
    rw [get?_request txn access hf] at hq
    split at hq
    · next heq =>
      obtain rfl := Option.some.inj hq
      obtain ⟨hhandle, hid⟩ := h.housed page frame hf
      subst heq
      exact ⟨hhandle, (sameShape_touch txn access frame.page).id_eq.trans hid⟩
    · exact h.housed q f hq
  have hstanding := h.standing_access hgot huses
    (d := (c.request txn page access).2) (by rw [hsame]; exact hresident) fun q _ => hsame q
  rw [request_of_resident txn access hf] at hhoused hstanding hkeys ⊢
  refine ⟨?_, hhoused, h.ranking.access page, hstanding, ?_, h.loading, h.capacity_eq, ?_, ?_, ?_⟩
  · exact h.wellKeyed.adjust _ _
  · rw [Ranking.clock_access, h.clock, History.gets_cons_of_got hgot]
  · simpa [size] using h.size_le
  · show c.hits + 1 + c.misses = _
    have := h.fetches
    rw [History.gets_cons_of_got hgot]
    omega
  · rw [History.drops_cons_of_none hdropped]
    simpa [size] using h.balance

theorem install (h : c.Records capacity moves) (hroom : c.size < c.capacity)
    (hloaded : m.loaded? = some page) (hdropped : m.dropped? = none)
    (hf : c.frames.get? page = none) {p : Page} (hid : p.id = page) :
    (c.install page p).2.Records capacity (m :: moves) := by
  have hgot := (History.got?_of_loaded? hloaded).1
  have huses : (c.uses? page).getD 0 + 1 = History.uses page (m :: moves) := by
    rw [h.uses?_eq, isResident_of_absent hf, History.uses_cons_of_loaded hloaded]
    rfl
  have hsize : (c.install page p).2.size = c.size + 1 := Keyed.size_put_of_absent hf _
  refine ⟨h.wellKeyed.put _ _, ?_, h.ranking.access page, ?_, ?_, h.loading, h.capacity_eq, ?_,
    ?_, ?_⟩
  · intro q f hq
    rw [get?_install] at hq
    split at hq
    · next heq =>
      obtain rfl := Option.some.inj hq
      exact ⟨heq.symm, hid.trans heq.symm⟩
    · exact h.housed q f hq
  · refine h.standing_access hgot huses ?_ ?_
    · rw [isResident_install, if_pos rfl]
    · intro q hq
      rw [isResident_install, if_neg hq]
  · show (c.ranking.access page).clock = _
    rw [Ranking.clock_access, h.clock, History.gets_cons_of_got hgot]
  · show (c.install page p).2.size ≤ c.capacity
    omega
  · show c.hits + (c.misses + 1) = _
    have := h.fetches
    rw [History.gets_cons_of_got hgot]
    omega
  · show c.misses + 1 = (c.install page p).2.size + c.evictions + _
    have := h.balance
    rw [History.drops_cons_of_none hdropped]
    omega

/-- Whatever a move does to the cache, the cache keeps account of it. -/
theorem step (h : m.before.cache.Records capacity moves) (halters : m.Alters) :
    m.after.cache.Records capacity (m :: moves) := by
  have hhoused := halters.housed h.housed
  cases halters with
  | idle hgot hdropped hcache =>
    rw [hcache]
    exact h.keep hgot hdropped rfl h.housed rfl rfl rfl rfl rfl rfl
  | edited hd f hgot hdropped _ hcache =>
    rw [hcache] at hhoused ⊢
    exact h.keep hgot hdropped (keys_modify _ _ _) hhoused rfl rfl rfl rfl rfl rfl
  | discarded page hdeed hcache =>
    rw [hcache]
    exact h.drop rfl hdeed
  | served txn page access frame hgot hdropped hf hcache =>
    rw [hcache]
    exact h.serve rfl hgot hdropped txn access hf
  | loaded txn page access pinned p roomy hdeed hanswer hf hread hroom hcache =>
    obtain ⟨hroomy, hlt⟩ := h.makeRoom hroom
    have hloaded : m.loaded? = some page := by
      simp [Move.loaded?, Move.got?, hdeed, hanswer, isResident_of_absent hf]
    have habsent : roomy.frames.get? page = none := by
      cases hget : roomy.frames.get? page with
      | none => rfl
      | some frame =>
        have := get?_of_makeRoom hroom hget
        rw [hf] at this
        cases this
    rw [hcache]
    exact hroomy.install hlt hloaded (by simp [Move.dropped?, hdeed]) habsent
      ((sameShape_touch txn access p).id_eq.trans (Catalog.id_of_stored? hread))

end Records

end Cache

/-- Whatever is done to a database with an empty cache, the cache keeps account of it. -/
theorem Trace.records {σ : Type} {locking : LockManager σ} {start db : Database σ}
    {moves : List (Move σ)} (h : Trace locking start moves db) {capacity : Nat}
    (hstart : start.cache = Cache.ofCapacity capacity) : db.cache.Records capacity moves := by
  induction h with
  | nil =>
    rw [hstart]
    exact Cache.records_ofCapacity σ capacity
  | cons _ hmade ih => exact ih.step hmade.alters

theorem Session.records {σ : Type} {locking : LockManager σ} {start db : Database σ}
    {steps : List (Exchange σ)} {capacity : Nat} (h : Session locking start steps db)
    (hstart : start.cache = Cache.ofCapacity capacity) :
    ∃ moves : List (Move σ), db.cache.Records capacity moves := by
  obtain ⟨moves, hmoves⟩ := h.itemized (hstart ▸ Cache.housed_ofCapacity capacity)
  exact ⟨moves, (h.trace hmoves).records hstart⟩

namespace Cache

variable {σ : Type} {c : Cache} {capacity : Nat} {moves : List (Move σ)}

/-- No counter and no number of the ranking is above a bound. If the bound is below `2 ^ 64`, the
numbers are the ones that 64-bit words would have. -/
structure CountsTo (c : Cache) (bound : Nat) : Prop where
  hits_le : c.hits ≤ bound
  misses_le : c.misses ≤ bound
  evictions_le : c.evictions ≤ bound
  clock_le : c.ranking.clock ≤ bound
  standing_le : ∀ (page : PageId) (s : Standing), c.ranking.standings.get? page = some s →
    s.uses ≤ bound ∧ s.lastUse ≤ bound

theorem Records.countsTo (h : c.Records capacity moves) : c.CountsTo (History.gets moves) := by
  have hfetches := h.fetches
  have hbalance := h.balance
  refine ⟨by omega, by omega, by omega, Nat.le_of_eq h.clock, ?_⟩
  intro page s hs
  rw [h.standing] at hs
  split at hs
  · obtain rfl := Option.some.inj hs
    exact ⟨History.uses_le_gets page moves, History.lastGet_le_gets page moves⟩
  · cases hs

/-- Which pages there are, each listed once, and how the counters come by their values. -/
structure Accounts (c : Cache) (capacity : Nat) (moves : List (Move σ)) : Prop where
  nodup_resident : c.frames.keys.Nodup
  nodup_tracked : c.ranking.standings.keys.Nodup
  nodup_candidates : c.ranking.candidates.Nodup
  mem_resident : ∀ page, page ∈ c.frames.keys ↔ c.isResident page = true
  mem_tracked : ∀ page, page ∈ c.ranking.standings.keys ↔ c.isResident page = true
  mem_candidates : ∀ page, page ∈ c.ranking.candidates ↔ c.isResident page = true
  id_eq : ∀ (page : PageId) (frame : Frame), c.frames.get? page = some frame →
    frame.page.id = page
  capacity_eq : c.capacity = max capacity 1
  size_le : c.size ≤ max capacity 1
  loading : c.loading = []
  fetches : c.hits + c.misses = History.gets moves
  balance : c.misses = c.size + c.evictions + History.drops moves
  uses?_eq : ∀ page, c.uses? page =
    if c.isResident page then some (History.uses page moves) else none
  counts : c.CountsTo (History.gets moves)

theorem Records.accounts (h : c.Records capacity moves) : c.Accounts capacity moves := by
  have htracked (page : PageId) :
      page ∈ c.ranking.standings.keys ↔ c.isResident page = true := by
    rw [Keyed.mem_keys, h.standing]
    split <;> simp_all
  exact {
    nodup_resident := h.wellKeyed
    nodup_tracked := h.ranking.wellKeyed
    nodup_candidates := h.ranking.nodup_candidates
    mem_resident := fun _ => Keyed.mem_keys
    mem_tracked := htracked
    mem_candidates := fun page => h.ranking.mem_candidates.trans (htracked page)
    id_eq := fun page frame hf => (h.housed page frame hf).2
    capacity_eq := h.capacity_eq
    size_le := h.capacity_eq ▸ h.size_le
    loading := h.loading
    fetches := h.fetches
    balance := h.balance
    uses?_eq := h.uses?_eq
    counts := h.countsTo }

end Cache

/-- Through any session from an empty cache, with any tables and any failures: the frames, the
ranking and its candidates are the same pages, and the counters add up. -/
theorem Session.cache_accounts {σ : Type} {locking : LockManager σ} {start db : Database σ}
    {steps : List (Exchange σ)} {capacity : Nat} (h : Session locking start steps db)
    (hstart : start.cache = Cache.ofCapacity capacity) :
    (∃ moves, Itemized locking steps moves) ∧
      ∀ moves, Itemized locking steps moves → db.cache.Accounts capacity moves := by
  refine ⟨h.itemized (hstart ▸ Cache.housed_ofCapacity capacity), ?_⟩
  intro moves hmoves
  exact ((h.trace hmoves).records hstart).accounts

/-- An insertion that finds the only place in the cache taken, a commit, an insertion for which the
page is evicted, and an abort. -/
theorem Session.cache_accounts_one_place :
    ∃ steps db moves, Session .permissive (Database.ofTable Database.numbers 9 1) steps db ∧
      Itemized .permissive steps moves ∧ db.cache.Accounts 1 moves ∧
      steps.map (fun s => s.answer.toOption.isSome) =
        [true, true, true, true, false, true, true] ∧
      db.cache.stats = ⟨5, 3, 1, 1, 1⟩ ∧ History.gets moves = 8 ∧ History.drops moves = 1 := by
  let result := Database.converse .permissive [] (Database.ofTable Database.numbers 9 1)
    [.call (.insert ⟨1⟩ (TableFile.idOf ["t"]) (Database.number 5)),
      .call (.insert ⟨1⟩ (TableFile.idOf ["t"]) (Database.number 6)),
      .call (.insert ⟨1⟩ (TableFile.idOf ["t"]) (Database.number 7)),
      .call (.complete ⟨1⟩ true),
      .call (.insert ⟨2⟩ (TableFile.idOf ["t"]) (Database.number 7)),
      .call (.complete ⟨2⟩ false),
      .call (.fetch ⟨3⟩ ⟨TableFile.idOf ["t"], 0⟩ .readOnly [])]
  have hsession : Session .permissive (Database.ofTable Database.numbers 9 1) result.1 result.2 :=
    Session.nil.converse (by simp [Request.Permitted])
  have hstart : (Database.ofTable Database.numbers 9 1).cache = Cache.ofCapacity 1 := rfl
  obtain ⟨⟨moves, hmoves⟩, hall⟩ := Session.cache_accounts hsession hstart
  have haccounts := hall moves hmoves
  have hstats : result.2.cache.stats = ⟨5, 3, 1, 1, 1⟩ := by decide +kernel
  have hfetches := haccounts.fetches
  have hbalance := haccounts.balance
  obtain ⟨hhits, hmisses, hevictions, hsize, -⟩ := CacheStats.mk.inj hstats
  exact ⟨_, _, moves, hsession, hmoves, haccounts, by decide +kernel, hstats, by omega, by omega⟩

end RowStore
