import RowStore.Proofs.Database.Unfolding

/-!
# The pages that an action sees

Inserting and deleting rows and scanning get at pages only by fetching them, and they change a page
only where it was fetched for writing. All else that they ask for can be told without seeing a page,
and all else that they do is to append empty pages to files. So what such an action sees can be
listed, page by page.
-/

namespace RowStore

/-- What can be told of a database without seeing a page: its tables, how long the files are, and
how many pages are resident. -/
structure Outline where
  catalog : Catalog
  length : Path → Nat
  resident : Nat

/-- The rounds that an insertion may take. -/
def Outline.roundLimit (o : Outline) (file : TableFile) : Nat :=
  let registered := match o.catalog.registration file.id with
    | .ok r => o.length r.file.path / r.file.pageSize + 1
    | .error _ => 0
  o.resident + registered + 1

/-- A page as it was handed out, and what its holder made of it, if anything. -/
structure Visit where
  page : PageId
  access : Access
  frame : Frame
  change? : Option Page

/-- What is seen by a fetch: nothing if it failed. -/
def Visit.ofFetch (page : PageId) (access : Access) (fetched : Except StorageError Frame)
    (change? : Page → Option Page) : List Visit :=
  match fetched with
  | .error _ => []
  | .ok frame => [⟨page, access, frame, change? frame.page⟩]

theorem Visit.mem_ofFetch {page : PageId} {access : Access} {fetched : Except StorageError Frame}
    {change? : Page → Option Page} {v : Visit} :
    v ∈ ofFetch page access fetched change? ↔
      ∃ frame, fetched = .ok frame ∧ v = ⟨page, access, frame, change? frame.page⟩ := by
  cases fetched <;> simp [ofFetch]

namespace Database

variable {σ : Type}

def outline (db : Database σ) : Outline := ⟨db.catalog, db.volume.length, db.cache.size⟩

theorem roundLimit_eq (file : TableFile) (db : Database σ) :
    roundLimit file db = db.outline.roundLimit file := rfl

/-- Fetch a page for writing and, if it can be changed as asked, keep the change. -/
def revise (locking : LockManager σ) (txn : TxnId) (page : PageId)
    (edit : Page → Except StorageError (Page × Row)) :
    Action (Database σ) (Except StorageError Change) := do
  let frame ← fetch locking txn page .readWrite []
  match edit frame.page with
  | .error e => return .error e
  | .ok (p, row) =>
    keepPage txn frame p
    return .ok ⟨row, frame.handle⟩

end Database

/-- An edit that keeps the identifier, the schema and the layout of a page. -/
def Page.KeepsShape (edit : Page → Except StorageError (Page × Row)) : Prop :=
  ∀ p q row, edit p = .ok (q, row) → q.SameShape p

/-- The pages that an action on behalf of a transaction sees from a database on, in order. A page is
seen where it is fetched, and changed where it is fetched for writing; what goes on between may
depend on the outline of the database, and on what was seen before. -/
inductive Visits {σ : Type} (locking : LockManager σ) (txn : TxnId) :
    {α : Type} → Action (Database σ) α → Database σ → List Visit → Prop
  | outline {α : Type} {x : Action (Database σ) α} {db : Database σ}
      (f : Outline → Except StorageError α) : (∀ db, x.run db = (f db.outline, db)) →
      Visits locking txn x db []
  | append {db : Database σ} (file : TableFile) : Visits locking txn (Database.allocate file) db []
  | look {db : Database σ} (page : PageId) (access : Access) (pinned : List Handle) :
      Visits locking txn (Database.fetch locking txn page access pinned) db
        (Visit.ofFetch page access ((Database.fetch locking txn page access pinned).run db).1
          fun _ => none)
  | revise {db : Database σ} (page : PageId) (edit : Page → Except StorageError (Page × Row)) :
      Page.KeepsShape edit → Visits locking txn (Database.revise locking txn page edit) db
        (Visit.ofFetch page .readWrite ((Database.fetch locking txn page .readWrite []).run db).1
          fun p => (edit p).toOption.map Prod.fst)
  | ended {α β : Type} {x : Action (Database σ) α} {f : α → Action (Database σ) β}
      {db mid : Database σ} {e : StorageError} {visits : List Visit} :
      Visits locking txn x db visits → x.run db = (.error e, mid) →
      Visits locking txn (x >>= f) db visits
  | bind {α β : Type} {x : Action (Database σ) α} {f : α → Action (Database σ) β}
      {db mid : Database σ} {a : α} {earlier later : List Visit} :
      Visits locking txn x db earlier → x.run db = (.ok a, mid) →
      Visits locking txn (f a) mid later → Visits locking txn (x >>= f) db (earlier ++ later)
  | attempt {α : Type} {x : Action (Database σ) α} {db : Database σ} {visits : List Visit} :
      Visits locking txn x db visits → Visits locking txn (.step x.run) db visits

namespace Visits

variable {σ α : Type} {locking : LockManager σ} {txn : TxnId} {x : Action (Database σ) α}
  {db : Database σ} {visits : List Visit}

/-- What holds of each part of an action holds of the whole, if it holds of nothing and passes on
from one part to the next. -/
theorem lift {R : Database σ → List Visit → Database σ → Prop} (h : Visits locking txn x db visits)
    (refl : ∀ db, R db [] db)
    (trans : ∀ {a b c vs ws}, R a vs b → R b ws c → R a (vs ++ ws) c)
    (append : ∀ file db, R db [] ((Database.allocate file).run db).2)
    (look : ∀ page access pinned db, R db
      (Visit.ofFetch page access ((Database.fetch locking txn page access pinned).run db).1
        fun _ => none)
      ((Database.fetch locking txn page access pinned).run db).2)
    (revise : ∀ page edit db, Page.KeepsShape edit → R db
      (Visit.ofFetch page .readWrite ((Database.fetch locking txn page .readWrite []).run db).1
        fun p => (edit p).toOption.map Prod.fst)
      ((Database.revise locking txn page edit).run db).2) :
    R db visits (x.run db).2 := by
  induction h with
  | outline f hrun =>
    rw [hrun]
    exact refl _
  | append file => exact append file _
  | look page access pinned => exact look page access pinned _
  | revise page edit hedit => exact revise page edit _ hedit
  | ended _ hrun ih =>
    rw [hrun] at ih
    rw [Action.run_bind_of_error hrun]
    exact ih
  | bind _ hrun _ ihx ihf =>
    rw [hrun] at ihx
    rw [Action.run_bind_of_ok hrun]
    exact trans ihx ihf
  | attempt _ ih => exact ih

end Visits

namespace Database

variable {σ : Type} {locking : LockManager σ} {txn : TxnId} {page : PageId} {access : Access}
  {pinned : List Handle} {db db' : Database σ}

theorem housed_of_fetch {fetched : Except StorageError Frame} (h : db.cache.Housed)
    (hrun : (fetch locking txn page access pinned).run db = (fetched, db')) :
    db'.cache.Housed := by
  have hafter : (Move.of locking db (.fetch txn page access pinned)).after = db' := by
    rw [Move.after_of_fetch, hrun]
  rw [← hafter]
  exact (Move.made_of_fetch locking db txn page access pinned).alters.housed h

/-- Of the resident pages only the one that was fetched may be another one than before. -/
theorem get?_of_fetch {fetched : Except StorageError Frame} {q : PageId} {frame : Frame}
    (hrun : (fetch locking txn page access pinned).run db = (fetched, db'))
    (hq : db'.cache.frames.get? q = some frame) :
    db.cache.frames.get? q = some frame ∨ q = page ∧ fetched = .ok frame := by
  by_cases heq : q = page
  · subst heq
    cases fetched with
    | ok found =>
      have hfound := resident_of_fetch hrun
      exact .inr ⟨rfl, congrArg Except.ok (Option.some.inj (hfound.symm.trans hq))⟩
    | error e =>
      rcases fetch_cases hrun with ⟨-, -, hdb⟩ | ⟨_, -, h, -⟩ | ⟨_, _, -, -, -, h, -⟩
      · rw [hdb] at hq
        exact .inl hq
      · cases h
      · cases h
  · rcases fetch_cases hrun with ⟨-, -, hdb⟩ | ⟨old, hold, -, hdb⟩ |
      ⟨p, roomy, -, -, hroom, -, hdb⟩
    · rw [hdb] at hq
      exact .inl hq
    · rw [hdb, Cache.get?_request txn access hold, if_neg heq] at hq
      exact .inl hq
    · rw [hdb, Cache.get?_install, if_neg heq] at hq
      exact .inl (Cache.get?_of_makeRoom hroom hq)

/-- A revision is a fetch for writing, after which the page may be changed. -/
theorem revise_cases {edit : Page → Except StorageError (Page × Row)}
    {result : Except StorageError (Except StorageError Change)} (h : db.cache.Housed)
    (hrun : (revise locking txn page edit).run db = (result, db')) :
    ∃ fetched mid, (fetch locking txn page .readWrite []).run db = (fetched, mid) ∧
      (db' = mid ∨ ∃ frame p row, fetched = .ok frame ∧ edit frame.page = .ok (p, row) ∧
        db' = { mid with cache := db'.cache } ∧ ∀ q, db'.cache.frames.get? q =
          if q = page then some { frame with page := p.markDirty (some txn) }
          else mid.cache.frames.get? q) := by
  rw [revise, Action.run_bind] at hrun
  rcases hfetch : (fetch locking txn page .readWrite []).run db with ⟨e | frame, mid⟩
  · rw [hfetch] at hrun
    exact ⟨_, _, rfl, .inl (Prod.mk.inj hrun).2.symm⟩
  · rw [hfetch] at hrun
    dsimp only at hrun
    rcases hedit : edit frame.page with e | ⟨p, row⟩
    · rw [hedit] at hrun
      exact ⟨_, _, rfl, .inl (Prod.mk.inj hrun).2.symm⟩
    · rw [hedit] at hrun
      obtain ⟨-, rfl⟩ := Prod.mk.inj hrun
      have hresident := resident_of_fetch hfetch
      have hhandle := (housed_of_fetch h hfetch page frame hresident).1
      exact ⟨_, _, rfl, .inr ⟨frame, p, row, rfl, hedit, rfl,
        Cache.get?_modify hresident hhandle fun _ => p.markDirty (some txn)⟩⟩

theorem housed_of_revise {edit : Page → Except StorageError (Page × Row)}
    {result : Except StorageError (Except StorageError Change)} (h : db.cache.Housed)
    (hedit : Page.KeepsShape edit) (hrun : (revise locking txn page edit).run db = (result, db')) :
    db'.cache.Housed := by
  obtain ⟨fetched, mid, hfetch, rfl | ⟨frame, p, row, rfl, hp, -, hframes⟩⟩ := revise_cases h hrun
  · exact housed_of_fetch h hfetch
  · have hmid := housed_of_fetch h hfetch
    intro q f hq
    rw [hframes] at hq
    split at hq
    · next heq =>
      obtain rfl := Option.some.inj hq
      obtain ⟨hhandle, hid⟩ := hmid page frame (resident_of_fetch hfetch)
      refine ⟨hhandle.trans heq.symm, ?_⟩
      rw [Page.markDirty_eq]
      exact ((hedit _ _ _ hp).id_eq.trans hid).trans heq.symm
    · exact hmid q f hq

end Database

namespace Visits

variable {σ α : Type} {locking : LockManager σ} {txn : TxnId} {x : Action (Database σ) α}
  {db : Database σ} {visits : List Visit}

/-- A page is changed only where it was fetched for writing. -/
theorem access_of_change (h : Visits locking txn x db visits) :
    ∀ v ∈ visits, v.change?.isSome = true → v.access = .readWrite := by
  refine h.lift (R := fun _ visits _ => ∀ v ∈ visits, v.change?.isSome = true →
    v.access = .readWrite) (by simp) ?_ (by simp) ?_ ?_
  · intro a b c vs ws hvs hws
    exact List.forall_mem_append.2 ⟨hvs, hws⟩
  · intro page access pinned db v hv hchange
    obtain ⟨frame, -, rfl⟩ := Visit.mem_ofFetch.1 hv
    cases hchange
  · intro page edit db _ v hv _
    obtain ⟨frame, -, rfl⟩ := Visit.mem_ofFetch.1 hv
    rfl

/-- The resident pages that were not fetched for writing are as they were before, or as they were
handed out. -/
def Spares (visits : List Visit) (c d : Cache) : Prop :=
  ∀ (page : PageId) (frame : Frame), (∀ v ∈ visits, v.page = page → v.access = .readOnly) →
    d.frames.get? page = some frame → c.frames.get? page = some frame ∨
      ∃ v ∈ visits, v.page = page ∧ v.frame = frame

theorem spares (h : Visits locking txn x db visits) (hdb : db.cache.Housed) :
    (x.run db).2.cache.Housed ∧ Spares visits db.cache (x.run db).2.cache := by
  refine h.lift (R := fun db visits db' => db.cache.Housed →
    db'.cache.Housed ∧ Spares visits db.cache db'.cache) ?_ ?_ ?_ ?_ ?_ hdb
  · exact fun db hdb => ⟨hdb, fun _ _ _ hq => .inl hq⟩
  · intro a b c vs ws hvs hws ha
    obtain ⟨hb, hfirst⟩ := hvs ha
    obtain ⟨hc, hrest⟩ := hws hb
    refine ⟨hc, ?_⟩
    intro page frame hreads hq
    obtain ⟨hvsReads, hwsReads⟩ := List.forall_mem_append.1 hreads
    rcases hrest page frame hwsReads hq with hq | ⟨v, hv, hseen⟩
    · rcases hfirst page frame hvsReads hq with hq | ⟨v, hv, hseen⟩
      · exact .inl hq
      · exact .inr ⟨v, List.mem_append_left _ hv, hseen⟩
    · exact .inr ⟨v, List.mem_append_right _ hv, hseen⟩
  · exact fun file db hdb => ⟨hdb, fun _ _ _ hq => .inl hq⟩
  · intro page access pinned db hdb
    rcases hrun : (Database.fetch locking txn page access pinned).run db with ⟨fetched, db'⟩
    refine ⟨Database.housed_of_fetch hdb hrun, ?_⟩
    intro q frame _ hq
    rcases Database.get?_of_fetch hrun hq with hq | ⟨rfl, rfl⟩
    · exact .inl hq
    · exact .inr ⟨_, List.mem_singleton_self _, rfl, rfl⟩
  · intro page edit db hedit hdb
    rcases hrevise : (Database.revise locking txn page edit).run db with ⟨result, db'⟩
    refine ⟨Database.housed_of_revise hdb hedit hrevise, ?_⟩
    intro q frame hreads hq
    obtain ⟨fetched, mid, hrun, hcases⟩ := Database.revise_cases hdb hrevise
    have hmid : mid.cache.frames.get? q = some frame := by
      rcases hcases with hsame | ⟨seen, p, row, rfl, -, -, hframes⟩
      · rwa [hsame] at hq
      · rw [hframes] at hq
        split at hq
        · next heq =>
          -- the page that was changed had been fetched for writing
          rw [hrun] at hreads
          cases hreads _ (List.mem_singleton_self _) heq.symm
        · exact hq
    rw [hrun]
    rcases Database.get?_of_fetch hrun hmid with hq | ⟨rfl, rfl⟩
    · exact .inl hq
    · exact .inr ⟨_, List.mem_singleton_self _, rfl, rfl⟩

end Visits

namespace Database

variable {σ : Type} {locking : LockManager σ} {txn : TxnId} {α β : Type}

/-- Whatever database it begins with, the pages that an action sees can be listed. -/
def Visiting (locking : LockManager σ) (txn : TxnId) (x : Action (Database σ) α) : Prop :=
  ∀ db, ∃ visits, Visits locking txn x db visits

namespace Visiting

theorem outline {x : Action (Database σ) α} (f : Outline → Except StorageError α)
    (h : ∀ db, x.run db = (f db.outline, db)) : Visiting locking txn x :=
  fun _ => ⟨[], .outline f h⟩

theorem answer (a : α) : Visiting locking txn (pure a) := .outline (fun _ => .ok a) fun _ => rfl

theorem fail (e : StorageError) : Visiting locking txn (.fail e : Action (Database σ) α) :=
  .outline (fun _ => .error e) fun _ => rfl

theorem look (page : PageId) (access : Access) (pinned : List Handle) :
    Visiting locking txn (fetch locking txn page access pinned) :=
  fun _ => ⟨_, .look page access pinned⟩

theorem bind {x : Action (Database σ) α} {f : α → Action (Database σ) β}
    (hx : Visiting locking txn x) (hf : ∀ a, Visiting locking txn (f a)) :
    Visiting locking txn (x >>= f) := by
  intro db
  obtain ⟨earlier, hearlier⟩ := hx db
  rcases hrun : x.run db with ⟨e | a, mid⟩
  · exact ⟨earlier, .ended hearlier hrun⟩
  · obtain ⟨later, hlater⟩ := hf a mid
    exact ⟨earlier ++ later, .bind hearlier hrun hlater⟩

theorem lookup (table : TableId) : Visiting locking txn (lookup (σ := σ) table) :=
  .outline (fun o => o.catalog.registration table) fun _ => rfl

theorem positions (file : TableFile) : Visiting locking txn (positions (σ := σ) file) :=
  .outline (fun o => .ok (List.range (o.length file.path / file.pageSize))) fun _ => rfl

end Visiting

variable (page : PageId) (file : TableFile) (row : Row)

/-! ## Inserting and deleting -/

theorem keepsShape_insert : Page.KeepsShape fun p => p.insert row := by
  intro p q placed hinsert
  obtain ⟨-, slot, -, -, rfl⟩ := Page.insert_eq_ok.1 hinsert
  exact ⟨rfl, rfl, rfl⟩

theorem keepsShape_delete : Page.KeepsShape fun p => p.delete row := by
  intro p q removed hdelete
  obtain ⟨slot, -, -, rfl⟩ := Page.delete_eq_ok.1 hdelete
  exact ⟨rfl, rfl, rfl⟩

theorem insertInto_eq (locking : LockManager σ) (txn : TxnId) :
    insertInto locking txn page row = revise locking txn page (fun p => p.insert row) >>=
      fun result => match result with
        | .ok change => pure (some change)
        | .error (.pageFull _) => pure none
        | .error e => .fail e := by
  refine Action.ext_run fun db => ?_
  simp only [insertInto, revise, Action.run_bind]
  rcases (fetch locking txn page .readWrite []).run db with ⟨e | frame, mid⟩
  · rfl
  · dsimp only
    rcases frame.page.insert row with e | ⟨p, placed⟩
    · cases e <;> rfl
    · rfl

theorem deleteAmong_cons (locking : LockManager σ) (txn : TxnId) (n : Nat) (ns : List Nat) :
    deleteAmong locking file txn row (n :: ns) =
      fetch locking txn (file.pageAt n) .readOnly [] >>= fun seen =>
        if seen.page.rows.any (fun r => r.Same row) then
          revise locking txn (file.pageAt n) (fun p => p.delete row) >>=
            fun result => match result with
              | .ok change => pure change
              | .error .rowNotFound => deleteAmong locking file txn row ns
              | .error e => .fail e
        else deleteAmong locking file txn row ns := by
  rw [deleteAmong]
  congr 1
  funext seen
  split
  · refine Action.ext_run fun db => ?_
    simp only [revise, Action.run_bind]
    rcases (fetch locking txn (file.pageAt n) .readWrite []).run db with ⟨e | frame, mid⟩
    · rfl
    · dsimp only
      rcases frame.page.delete row with e | ⟨p, removed⟩
      · cases e <;> rfl
      · rfl
  · rfl

theorem visiting_insertInto : Visiting locking txn (insertInto locking txn page row) := by
  rw [insertInto_eq]
  refine .bind (fun _ => ⟨_, .revise page _ (keepsShape_insert row)⟩) ?_
  intro result
  split
  · exact .answer _
  · exact .answer _
  · exact .fail _

theorem visiting_insertAmong (ns : List Nat) :
    Visiting locking txn (insertAmong locking file txn row ns) := by
  induction ns with
  | nil => exact .answer _
  | cons n ns ih =>
    refine .bind (.look _ _ _) ?_
    intro frame
    split
    · exact ih
    · refine .bind (visiting_insertInto _ _) ?_
      intro result
      split
      · exact .answer _
      · exact ih

theorem visiting_insertRow : Visiting locking txn (insertRow locking file txn row) := by
  have hround : Visiting locking txn (insertRound locking file txn row) := by
    refine .bind (.positions file) fun ns => .bind (visiting_insertAmong _ _ _) ?_
    intro result
    split
    · exact .answer _
    · exact .bind (fun _ => ⟨_, .append file⟩) fun page => visiting_insertInto _ _
  have hrounds (rounds : Nat) :
      Visiting locking txn (insertRounds locking file txn row rounds) := by
    induction rounds with
    | zero => exact .fail _
    | succ rounds ih =>
      refine .bind hround ?_
      intro result
      split
      · exact .answer _
      · exact ih
  unfold insertRow
  split
  · exact .fail _
  · refine .bind (.outline (fun o => .ok (o.roundLimit file)) fun db => ?_) hrounds
    rw [← roundLimit_eq]
    rfl

theorem visiting_deleteAmong (ns : List Nat) :
    Visiting locking txn (deleteAmong locking file txn row ns) := by
  induction ns with
  | nil => exact .fail _
  | cons n ns ih =>
    rw [deleteAmong_cons]
    refine .bind (.look _ _ _) ?_
    intro seen
    split
    · refine .bind (fun _ => ⟨_, .revise _ _ (keepsShape_delete row)⟩) ?_
      intro result
      split
      · exact .answer _
      · exact ih
      · exact .fail _
    · exact ih

theorem visiting_insert (table : TableId) :
    Visiting locking txn (Database.insert locking txn table row) :=
  .bind (.lookup table) fun r => visiting_insertRow r.file row

theorem visiting_delete : Visiting locking txn (Database.delete locking txn row) := by
  unfold Database.delete
  split
  · exact .fail _
  · exact .bind (.lookup _) fun r => .bind (.positions r.file) fun ns => visiting_deleteAmong _ _ _

end Database

end RowStore
