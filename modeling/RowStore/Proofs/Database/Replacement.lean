import RowStore.Proofs.Database.History

/-!
# Which page is given up

A page that is fetched and not resident is read first. If the cache is full then, the clean page
that nobody is writing and that was fetched least often since it was loaded goes, and among such
pages the one whose last fetch is oldest; if there is none, the cache is exhausted and stays as it
is. Nothing else ever takes a page out of the cache but discarding it.
-/

namespace RowStore

namespace Cache

variable {c : Cache} {pinned : List Handle} {page victim : PageId}

/-- A resident page that is clean and that none of its holders is writing. -/
def Spare (c : Cache) (pinned : List Handle) (page : PageId) : Prop :=
  ∃ frame, c.frames.get? page = some frame ∧ frame.page.isDirty = false ∧ frame.handle ∉ pinned

theorem evictable_iff : c.evictable pinned page = true ↔ c.Spare pinned page := by
  unfold evictable Spare
  cases c.frames.get? page with
  | none => simp
  | some frame => simp [and_comm]

/-- Of the pages that may go, the one that was fetched least often since it was loaded, and among
those the one whose last fetch is oldest. -/
structure FirstOut {σ : Type} (c : Cache) (moves : List (Move σ)) (pinned : List Handle)
    (victim : PageId) : Prop where
  spare : c.Spare pinned victim
  first : ∀ q, c.Spare pinned q → q ≠ victim →
    History.uses victim moves < History.uses q moves ∨
      History.uses victim moves = History.uses q moves ∧
        History.lastGet victim moves < History.lastGet q moves

namespace Records

variable {σ : Type} {capacity : Nat} {moves : List (Move σ)}

theorem standing_of_spare (h : c.Records capacity moves) (hspare : c.Spare pinned page) :
    c.ranking.standings.get? page =
      some ⟨History.uses page moves, History.lastGet page moves, page⟩ := by
  obtain ⟨frame, hf, -⟩ := hspare
  rw [h.standing, if_pos (isResident_of_get? hf)]

/-- The candidate that is chosen goes first by the account of the moves. -/
theorem firstOut (h : c.Records capacity moves)
    (hfind : c.ranking.candidates.find? (c.evictable pinned) = some victim) :
    c.FirstOut moves pinned victim := by
  obtain ⟨hvictim, standing, hstanding, hfirst⟩ := h.ranking.find?_candidates hfind
  have hspare := evictable_iff.1 hvictim
  obtain rfl := Option.some.inj (hstanding.symm.trans (h.standing_of_spare hspare))
  refine ⟨hspare, ?_⟩
  intro q hq hne
  exact hfirst q _ (h.standing_of_spare hq) (evictable_iff.2 hq) hne

/-- In a full cache one page goes if any may. -/
theorem makeRoom_of_spare (h : c.Records capacity moves) (hfull : c.capacity ≤ c.size)
    (hspare : c.Spare pinned page) :
    ∃ victim, c.FirstOut moves pinned victim ∧
      c.makeRoom pinned = .ok { c.drop victim with evictions := c.evictions + 1 } := by
  cases hfind : c.ranking.candidates.find? (c.evictable pinned) with
  | some victim =>
    refine ⟨victim, h.firstOut hfind, ?_⟩
    simp [Cache.makeRoom, Nat.not_lt.2 hfull, hfind]
  | none =>
    have hcandidate : page ∈ c.ranking.candidates := by
      simp [h.ranking.mem_candidates, Keyed.mem_keys, h.standing_of_spare hspare]
    exact absurd (evictable_iff.2 hspare) (List.find?_eq_none.1 hfind page hcandidate)

end Records

theorem makeRoom_of_none (hfull : c.capacity ≤ c.size) (hnone : ∀ q, ¬ c.Spare pinned q) :
    c.makeRoom pinned = .error .cacheExhausted := by
  have hfind : c.ranking.candidates.find? (c.evictable pinned) = none :=
    List.find?_eq_none.2 fun q _ hq => hnone q (evictable_iff.1 hq)
  simp [makeRoom, Nat.not_lt.2 hfull, hfind]

/-- Room is made at the cost of no page that is changed or being written. -/
theorem spare_of_makeRoom {roomy : Cache} {frame : Frame} (hroom : c.makeRoom pinned = .ok roomy)
    (hf : c.frames.get? page = some frame) (hgone : roomy.frames.get? page = none) :
    c.Spare pinned page := by
  unfold makeRoom at hroom
  split at hroom
  · obtain rfl := Except.ok.inj hroom
    exact absurd (hf.symm.trans hgone) (by simp)
  · split at hroom
    · cases hroom
    · next victim hfind =>
      obtain rfl := Except.ok.inj hroom
      have hgone : (c.drop victim).frames.get? page = none := hgone
      by_cases hvictim : page = victim
      · subst hvictim
        exact evictable_iff.1 (List.find?_some hfind)
      · rw [get?_drop, if_neg hvictim, hf] at hgone
        cases hgone

end Cache

namespace Database

variable {σ : Type} {locking : LockManager σ} {txn : TxnId} {page : PageId} {access : Access}
  {pinned : List Handle} {locks : σ} {db : Database σ}

/-- How a fetch of a page that is not resident goes once its lock is granted, by the moves made
so far. -/
structure Replaces (locking : LockManager σ) (db : Database σ) (moves : List (Move σ)) (txn : TxnId)
    (page : PageId) (access : Access) (pinned : List Handle) (locks : σ) : Prop where
  unreadable : ∀ e, db.load page = .error e →
    (fetch locking txn page access pinned).run db = (.error e, { db with locks := locks })
  roomy : ∀ p, db.load page = .ok p → db.cache.size < db.cache.capacity →
    ∃ frame db', (fetch locking txn page access pinned).run db = (.ok frame, db') ∧
      db'.cache.evictions = db.cache.evictions ∧
      ∀ q, db'.cache.frames.get? q =
        if q = page then some frame else db.cache.frames.get? q
  full : ∀ p, db.load page = .ok p → db.cache.capacity ≤ db.cache.size →
    (∃ q, db.cache.Spare pinned q) →
    ∃ victim frame db', db.cache.FirstOut moves pinned victim ∧
      (fetch locking txn page access pinned).run db = (.ok frame, db') ∧
      db'.cache.evictions = db.cache.evictions + 1 ∧
      ∀ q, db'.cache.frames.get? q =
        if q = page then some frame
        else if q = victim then none
        else db.cache.frames.get? q
  exhausted : ∀ p, db.load page = .ok p → db.cache.capacity ≤ db.cache.size →
    (∀ q, ¬ db.cache.Spare pinned q) →
    (fetch locking txn page access pinned).run db =
      (.error .cacheExhausted, { db with locks := locks })
  exhausted_iff : ∀ p, db.load page = .ok p →
    (((fetch locking txn page access pinned).run db).1 = .error .cacheExhausted ↔
      db.cache.capacity ≤ db.cache.size ∧ ∀ q, ¬ db.cache.Spare pinned q)

theorem replaces {capacity : Nat} {moves : List (Move σ)} (h : db.cache.Records capacity moves)
    (hlock : locking.acquire txn page access db.locks = (.ok (), locks))
    (habsent : db.cache.isResident page = false) :
    db.Replaces locking moves txn page access pinned locks := by
  have hrun := fetch_of_miss pinned hlock (Cache.get?_of_absent habsent) h.loading
  have hroomy (p : Page) (hload : db.load page = .ok p)
      (hroom : db.cache.size < db.cache.capacity) :
      ∃ frame db', (fetch locking txn page access pinned).run db = (.ok frame, db') ∧
        db'.cache.evictions = db.cache.evictions ∧
        ∀ q, db'.cache.frames.get? q =
          if q = page then some frame else db.cache.frames.get? q := by
    have hmake : db.cache.makeRoom pinned = .ok db.cache := if_pos hroom
    rw [hload, hmake] at hrun
    exact ⟨_, _, hrun, rfl, Cache.get?_install _ _ _⟩
  have hfull (p : Page) (hload : db.load page = .ok p) (hfull : db.cache.capacity ≤ db.cache.size)
      (hspare : ∃ q, db.cache.Spare pinned q) :
      ∃ victim frame db', db.cache.FirstOut moves pinned victim ∧
        (fetch locking txn page access pinned).run db = (.ok frame, db') ∧
        db'.cache.evictions = db.cache.evictions + 1 ∧
        ∀ q, db'.cache.frames.get? q =
          if q = page then some frame
          else if q = victim then none
          else db.cache.frames.get? q := by
    obtain ⟨q, hq⟩ := hspare
    obtain ⟨victim, hfirst, hmake⟩ := h.makeRoom_of_spare hfull hq
    rw [hload, hmake] at hrun
    refine ⟨victim, _, _, hfirst, hrun, rfl, ?_⟩
    intro q
    rw [← Cache.get?_drop]
    exact Cache.get?_install _ _ _ _
  have hexhausted (p : Page) (hload : db.load page = .ok p)
      (hfull : db.cache.capacity ≤ db.cache.size) (hnone : ∀ q, ¬ db.cache.Spare pinned q) :
      (fetch locking txn page access pinned).run db =
        (.error .cacheExhausted, { db with locks := locks }) := by
    rw [hload, Cache.makeRoom_of_none hfull hnone] at hrun
    exact hrun
  refine ⟨?_, hroomy, hfull, hexhausted, ?_⟩
  · intro e hload
    rw [hload] at hrun
    exact hrun
  · intro p hload
    constructor
    · intro herror
      have hno : db.cache.capacity ≤ db.cache.size := by
        refine Nat.not_lt.1 fun hlt => ?_
        obtain ⟨frame, db', hok, -⟩ := hroomy p hload hlt
        rw [hok] at herror
        cases herror
      refine ⟨hno, ?_⟩
      intro q hq
      obtain ⟨victim, frame, db', -, hok, -⟩ := hfull p hload hno ⟨q, hq⟩
      rw [hok] at herror
      cases herror
    · rintro ⟨hno, hnone⟩
      rw [hexhausted p hload hno hnone]

end Database

namespace Move

variable {σ : Type} {locking : LockManager σ} {m : Move σ}

/-- A page that leaves the cache was discarded, or it was clean and not being written when another
one was fetched. -/
def StealsNothing (m : Move σ) : Prop :=
  ∀ (page : PageId) (frame : Frame), m.before.cache.frames.get? page = some frame →
    m.after.cache.isResident page = false →
    m.deed = .discard page ∨
      ∃ txn other access pinned, m.deed = .fetch txn other access pinned ∧
        frame.page.isDirty = false ∧ frame.handle ∉ pinned

theorem Alters.stealsNothing (h : m.Alters) : m.StealsNothing := by
  intro page frame hf hgone
  cases h with
  | idle _ _ hcache =>
    rw [hcache, Cache.isResident_of_get? hf] at hgone
    cases hgone
  | edited hd f _ _ _ hcache =>
    rw [hcache, Cache.isResident_of_keys (Cache.keys_modify _ _ _),
      Cache.isResident_of_get? hf] at hgone
    cases hgone
  | discarded q hdeed hcache =>
    rw [hcache, Cache.isResident_drop] at hgone
    split at hgone
    · next hq => exact .inl (hq ▸ hdeed)
    · rw [Cache.isResident_of_get? hf] at hgone
      cases hgone
  | served txn q access old _ _ hold hcache =>
    have hresident : (m.before.cache.request txn q access).2.isResident page =
        m.before.cache.isResident page := by
      rw [Cache.request_of_resident txn access hold]
      exact Cache.isResident_of_keys (Keyed.keys_adjust _ _ _) page
    rw [hcache, hresident, Cache.isResident_of_get? hf] at hgone
    cases hgone
  | loaded txn q access pinned p roomy hdeed _ _ _ hroom hcache =>
    refine .inr ⟨txn, q, access, pinned, hdeed, ?_⟩
    have habsent : roomy.frames.get? page = none := by
      rw [hcache, Cache.isResident_install] at hgone
      split at hgone
      · cases hgone
      · exact Cache.get?_of_absent hgone
    obtain ⟨old, hold, hspare⟩ := Cache.spare_of_makeRoom hroom hf habsent
    obtain rfl := Option.some.inj (hold.symm.trans hf)
    exact hspare

end Move

/-- Whatever moves a trace ends in, there was a moment before them. -/
theorem Trace.moment {σ : Type} {locking : LockManager σ} {start db : Database σ}
    {earlier moves : List (Move σ)} (h : Trace locking start moves db) (hpart : earlier <:+ moves) :
    ∃ now, Trace locking start earlier now := by
  induction h with
  | nil => exact ⟨start, List.suffix_nil.1 hpart ▸ .nil⟩
  | cons htrace hmade ih =>
    rcases List.suffix_cons_iff.1 hpart with rfl | hpart
    · exact ⟨_, htrace.cons hmade⟩
    · exact ih hpart

/-- At every moment of a session from an empty cache, and inside its requests too: how a page is
chosen that is given up, when the cache is exhausted, and that no other page is given up. -/
theorem Session.replacement {σ : Type} {locking : LockManager σ} {start db : Database σ}
    {steps : List (Exchange σ)} {capacity : Nat} (h : Session locking start steps db)
    (hstart : start.cache = Cache.ofCapacity capacity) :
    (∃ moves, Itemized locking steps moves) ∧
      ∀ moves, Itemized locking steps moves →
        Trace locking start moves db ∧ (∀ m ∈ moves, m.StealsNothing) ∧
        (∀ earlier, earlier <:+ moves → ∃ now, Trace locking start earlier now) ∧
        ∀ earlier now, Trace locking start earlier now →
          ∀ txn page access pinned locks,
            locking.acquire txn page access now.locks = (.ok (), locks) →
            now.cache.isResident page = false →
            now.Replaces locking earlier txn page access pinned locks := by
  refine ⟨h.itemized (hstart ▸ Cache.housed_ofCapacity capacity), ?_⟩
  intro moves hmoves
  have htrace := h.trace hmoves
  refine ⟨htrace, ?_, fun earlier => htrace.moment, ?_⟩
  · intro m hm
    exact (htrace.made m hm).alters.stealsNothing
  · intro earlier now hnow txn page access pinned locks hlock habsent
    exact Database.replaces (hnow.records hstart) hlock habsent

/-- Three pages in a cache for two. The page that was fetched least is being written when the third
one is asked for, so the other one goes. -/
theorem Session.replacement_past_pinned :
    ∃ steps db moves frame db',
      Session .permissive (Database.ofTable Database.numbers 9 2) steps db ∧
        Itemized .permissive steps moves ∧
        (Database.fetch .permissive ⟨2⟩ ⟨TableFile.idOf ["t"], 1⟩ .readOnly
          [⟨⟨TableFile.idOf ["t"], 2⟩, 2⟩]).run db = (.ok frame, db') ∧
        db.cache.FirstOut moves [⟨⟨TableFile.idOf ["t"], 2⟩, 2⟩] ⟨TableFile.idOf ["t"], 0⟩ ∧
        History.uses ⟨TableFile.idOf ["t"], 2⟩ moves <
          History.uses ⟨TableFile.idOf ["t"], 0⟩ moves := by
  let result := Database.converse .permissive [] (Database.ofTable Database.numbers 9 2)
    [.call (.insert ⟨1⟩ (TableFile.idOf ["t"]) (Database.number 5)),
      .call (.insert ⟨1⟩ (TableFile.idOf ["t"]) (Database.number 6)),
      .call (.insert ⟨1⟩ (TableFile.idOf ["t"]) (Database.number 7)),
      .call (.insert ⟨1⟩ (TableFile.idOf ["t"]) (Database.number 8)),
      .call (.complete ⟨1⟩ true),
      .call (.insert ⟨1⟩ (TableFile.idOf ["t"]) (Database.number 9)),
      .call (.complete ⟨1⟩ true)]
  have hsession : Session .permissive (Database.ofTable Database.numbers 9 2) result.1 result.2 :=
    Session.nil.converse (by simp [Request.Permitted])
  have hstart : (Database.ofTable Database.numbers 9 2).cache = Cache.ofCapacity 2 := rfl
  obtain ⟨⟨moves, hmoves⟩, hall⟩ := Session.replacement hsession hstart
  obtain ⟨htrace, -, -, hreplaces⟩ := hall moves hmoves
  have hfetch := hreplaces moves result.2 htrace ⟨2⟩ ⟨TableFile.idOf ["t"], 1⟩ .readOnly
    [⟨⟨TableFile.idOf ["t"], 2⟩, 2⟩] result.2.locks rfl (by decide +kernel)
  have hload : ∃ p, result.2.load ⟨TableFile.idOf ["t"], 1⟩ = .ok p := by
    have : (result.2.load ⟨TableFile.idOf ["t"], 1⟩).toOption.isSome = true := by decide +kernel
    cases hload : result.2.load ⟨TableFile.idOf ["t"], 1⟩ with
    | error e => simp [hload, Except.toOption] at this
    | ok p => exact ⟨p, rfl⟩
  obtain ⟨p, hload⟩ := hload
  have hspare : result.2.cache.Spare [⟨⟨TableFile.idOf ["t"], 2⟩, 2⟩] ⟨TableFile.idOf ["t"], 0⟩ :=
    Cache.evictable_iff.1 (by decide +kernel)
  obtain ⟨victim, frame, db', hfirst, hrun, -, hframes⟩ :=
    hfetch.full p hload (by decide +kernel) ⟨_, hspare⟩
  have hgone : ((Database.fetch .permissive ⟨2⟩ ⟨TableFile.idOf ["t"], 1⟩ .readOnly
      [⟨⟨TableFile.idOf ["t"], 2⟩, 2⟩]).run result.2).2.cache.isResident ⟨TableFile.idOf ["t"], 0⟩ =
    false := by decide +kernel
  have hvictim : ⟨TableFile.idOf ["t"], 0⟩ = victim := by
    by_contra hne
    obtain ⟨spared, hspared, -⟩ := hspare
    have hkept := hframes ⟨TableFile.idOf ["t"], 0⟩
    rw [if_neg (by decide +kernel), if_neg hne, hspared] at hkept
    rw [hrun, Cache.isResident_of_get? hkept] at hgone
    cases hgone
  have huses := (htrace.records hstart).uses?_eq
  have hother : result.2.cache.uses? ⟨TableFile.idOf ["t"], 2⟩ = some 1 := by decide +kernel
  have hchosen : result.2.cache.uses? ⟨TableFile.idOf ["t"], 0⟩ = some 6 := by decide +kernel
  rw [huses, if_pos (by decide +kernel)] at hother hchosen
  refine ⟨_, _, moves, frame, db', hsession, hmoves, hrun, hvictim ▸ hfirst, ?_⟩
  rw [Option.some.inj hother, Option.some.inj hchosen]
  decide

end RowStore
