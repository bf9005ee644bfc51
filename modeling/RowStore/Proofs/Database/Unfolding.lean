import RowStore.Proofs.Database.Trace
import RowStore.Proofs.File.Images

/-!
# Calls as moves

Every call comes down to moves: it asks and decides without moving, does a deed, or goes on with
another action after the first. A call registers no table and opens no file, and it appends pages to
the files of registered tables only.
-/

namespace RowStore

/-- The moves that an action makes from a database on, the last one first. -/
inductive Unfolds {σ : Type} (locking : LockManager σ) :
    {α : Type} → Action (Database σ) α → Database σ → List (Move σ) → Prop
  | still {α : Type} {x : Action (Database σ) α} {db : Database σ} :
      (∀ db, (x.run db).2 = db) → Unfolds locking x db []
  | deed {α : Type} {x : Action (Database σ) α} {db : Database σ} (deed : Deed) :
      (fun _ => ()) <$> x = deed.perform locking → deed.Permitted db.cache →
      Unfolds locking x db [Move.of locking db deed]
  | ended {α β : Type} {x : Action (Database σ) α} {f : α → Action (Database σ) β}
      {db mid : Database σ} {e : StorageError} {moves : List (Move σ)} :
      Unfolds locking x db moves → x.run db = (.error e, mid) → Unfolds locking (x >>= f) db moves
  | bind {α β : Type} {x : Action (Database σ) α} {f : α → Action (Database σ) β}
      {db mid : Database σ} {a : α} {earlier later : List (Move σ)} :
      Unfolds locking x db earlier → x.run db = (.ok a, mid) → Unfolds locking (f a) mid later →
      Unfolds locking (x >>= f) db (later ++ earlier)
  | attempt {α : Type} {x : Action (Database σ) α} {db : Database σ} {moves : List (Move σ)} :
      Unfolds locking x db moves → Unfolds locking (.step x.run) db moves

theorem Unfolds.trace {σ α : Type} {locking : LockManager σ} {x : Action (Database σ) α}
    {db : Database σ} {moves : List (Move σ)} (h : Unfolds locking x db moves) :
    Trace locking db moves (x.run db).2 := by
  induction h with
  | still hstill =>
    rw [hstill]
    exact .nil
  | @deed α x db deed hdeed hpermitted =>
    have hafter : (x.run db).2 = ((deed.perform locking).run db).2 := by
      rw [← hdeed, Action.run_map]
    rw [hafter]
    exact Trace.cons (m := Move.of locking db deed) .nil ⟨rfl, hpermitted⟩
  | ended _ hrun ih =>
    rw [hrun] at ih
    rw [Action.run_bind_of_error hrun]
    exact ih
  | bind _ hrun _ ihx ihf =>
    rw [hrun] at ihx
    rw [Action.run_bind_of_ok hrun]
    exact ihx.trans ihf
  | attempt _ ih => exact ih

/-- A deed that leaves a catalog as it is, and appends pages to the files of its tables only. -/
def Deed.Within (c : Catalog) : Deed → Prop
  | .register _ | .openFile .. => False
  | .append file => ∃ id r, c.registration id = .ok r ∧ r.file = file
  | _ => True

theorem Trace.catalog_of_within {σ : Type} {locking : LockManager σ} {start db : Database σ}
    {moves : List (Move σ)} {c : Catalog} (h : Trace locking start moves db)
    (hwithin : ∀ m ∈ moves, m.deed.Within c) : db.catalog = start.catalog := by
  induction h with
  | nil => rfl
  | @cons _ m _ hmade ih =>
    obtain ⟨hm, hmoves⟩ := List.forall_mem_cons.1 hwithin
    rcases hmade.catalog_cases with ⟨r, hdeed, -⟩ | ⟨-, hcatalog⟩
    · rw [hdeed] at hm
      exact hm.elim
    · exact hcatalog.trans (ih hmoves)

/-- A move that registers a table only where that displaces no other, and that appends pages to the
files of registered tables only. -/
def Move.Orderly {σ : Type} (m : Move σ) : Prop :=
  match m.deed with
  | .register r => m.before.catalog.Admits r
  | .append file => ∃ id r, m.before.catalog.registration id = .ok r ∧ r.file = file
  | _ => True

theorem Trace.orderly_of_within {σ : Type} {locking : LockManager σ} {start db : Database σ}
    {moves : List (Move σ)} (h : Trace locking start moves db)
    (hwithin : ∀ m ∈ moves, m.deed.Within start.catalog) : ∀ m ∈ moves, m.Orderly := by
  induction h with
  | nil => simp
  | @cons _ m hmoves _ ih =>
    obtain ⟨hm, hrest⟩ := List.forall_mem_cons.1 hwithin
    refine List.forall_mem_cons.2 ⟨?_, ih hrest⟩
    rw [← hmoves.catalog_of_within hrest] at hm
    unfold Move.Orderly
    cases hdeed : m.deed with
    | register r =>
      rw [hdeed] at hm
      exact hm.elim
    | append file =>
      rw [hdeed] at hm
      exact hm
    | fetch | edit | discard | flush | release | releaseAll | openFile => trivial

namespace Database

variable {σ : Type} {locking : LockManager σ} {c : Catalog} {α β : Type} {db : Database σ}

/-- From this database on an action makes moves within a catalog. -/
def Splits (locking : LockManager σ) (c : Catalog) (x : Action (Database σ) α)
    (db : Database σ) : Prop :=
  ∃ moves, Unfolds locking x db moves ∧ ∀ m ∈ moves, m.deed.Within c

/-- Wherever the tables are those of a catalog, an action makes moves within it. -/
def Divides (locking : LockManager σ) (c : Catalog) (x : Action (Database σ) α) : Prop :=
  ∀ db, db.cache.Housed → db.catalog = c → Splits locking c x db

theorem Splits.still {x : Action (Database σ) α} (h : ∀ db, (x.run db).2 = db) :
    Splits locking c x db := ⟨[], .still h, by simp⟩

theorem Splits.deed {x : Action (Database σ) α} (deed : Deed) (hwithin : deed.Within c)
    (hpermitted : deed.Permitted db.cache) (h : (fun _ => ()) <$> x = deed.perform locking) :
    Splits locking c x db := ⟨_, .deed deed h hpermitted, by simpa [Move.of] using hwithin⟩

namespace Divides

theorem still {x : Action (Database σ) α} (h : ∀ db, (x.run db).2 = db) : Divides locking c x :=
  fun _ _ _ => .still h

theorem of_deed {x : Action (Database σ) α} (deed : Deed) (hwithin : deed.Within c)
    (hpermitted : ∀ c, deed.Permitted c) (h : (fun _ => ()) <$> x = deed.perform locking) :
    Divides locking c x := fun _ _ _ => .deed deed hwithin (hpermitted _) h

/-- What follows an action may rest on what it left. -/
theorem bind_of_run {x : Action (Database σ) α} {f : α → Action (Database σ) β}
    (hx : Divides locking c x)
    (hf : ∀ (a : α) (db mid : Database σ), x.run db = (.ok a, mid) → mid.cache.Housed →
      mid.catalog = c → Splits locking c (f a) mid) : Divides locking c (x >>= f) := by
  intro db hdb hcatalog
  obtain ⟨earlier, hearlier, hwithin⟩ := hx db hdb hcatalog
  rcases hrun : x.run db with ⟨e | a, mid⟩
  · exact ⟨earlier, .ended hearlier hrun, hwithin⟩
  · have htrace := hearlier.trace
    rw [hrun] at htrace
    obtain ⟨later, hlater, hrest⟩ := hf a db mid hrun (htrace.housed hdb)
      ((htrace.catalog_of_within hwithin).trans hcatalog)
    exact ⟨later ++ earlier, .bind hearlier hrun hlater, List.forall_mem_append.2 ⟨hrest, hwithin⟩⟩

theorem bind {x : Action (Database σ) α} {f : α → Action (Database σ) β}
    (hx : Divides locking c x) (hf : ∀ a, Divides locking c (f a)) : Divides locking c (x >>= f) :=
  hx.bind_of_run fun a _ mid _ hmid hcatalog => hf a mid hmid hcatalog

theorem map {x : Action (Database σ) α} (f : α → β) (hx : Divides locking c x) :
    Divides locking c (f <$> x) := hx.bind fun _ => still fun _ => rfl

theorem attempt {x : Action (Database σ) α} (hx : Divides locking c x) :
    Divides locking c (.step x.run) := by
  intro db hdb hcatalog
  obtain ⟨moves, hmoves, hwithin⟩ := hx db hdb hcatalog
  exact ⟨moves, .attempt hmoves, hwithin⟩

/-- What follows may rest on a table being registered. -/
theorem lookup_bind {table : TableId} {f : Registration → Action (Database σ) β}
    (hf : ∀ r, c.registration table = .ok r → Divides locking c (f r)) :
    Divides locking c (lookup table >>= f) := by
  refine (still fun _ => rfl).bind_of_run ?_
  intro r db mid hrun hmid hcatalog
  obtain ⟨hr, rfl⟩ := Prod.mk.inj hrun
  exact hf r (hcatalog ▸ hr) db hmid hcatalog

end Divides

variable (txn : TxnId) (page : PageId) (file : TableFile) (row : Row)

theorem divides_fetch (access : Access) (pinned : List Handle) :
    Divides locking c (fetch locking txn page access pinned) :=
  .of_deed (.fetch txn page access pinned) trivial (fun _ => trivial) rfl

/-- A change to a page that was fetched is kept by the holder of the page. -/
theorem splits_keepPage {frame : Frame} {p : Page} (hdb : db.cache.Housed)
    (hf : db.cache.frames.get? page = some frame) (hp : p.SameShape frame.page) :
    Splits locking c (keepPage txn frame p) db := by
  refine .deed (.edit frame.handle fun _ => p.markDirty (some txn)) trivial ?_ (id_map _)
  intro q hq
  rw [Cache.page?_of_resident hf (hdb page frame hf).1] at hq
  obtain rfl := Option.some.inj hq
  rw [Page.markDirty_eq]
  exact ⟨hp.id_eq, hp.schema_eq, hp.layout_eq⟩

/-- An answer that follows a change to a page. -/
theorem splits_keepPage_bind {frame : Frame} {p : Page} {a : α} (hdb : db.cache.Housed)
    (hf : db.cache.frames.get? page = some frame) (hp : p.SameShape frame.page) :
    Splits locking c (keepPage txn frame p >>= fun _ => pure a) db := by
  have hkeep : Splits locking c (keepPage txn frame p) db := splits_keepPage txn page hdb hf hp
  obtain ⟨moves, hmoves, hwithin⟩ := hkeep
  exact ⟨[] ++ moves, .bind hmoves rfl (.still fun _ => rfl), hwithin⟩

theorem divides_insertInto : Divides locking c (insertInto locking txn page row) := by
  refine (divides_fetch txn page _ _).bind_of_run ?_
  intro frame _ mid hrun hmid _
  split
  · next p placed hinsert =>
    obtain ⟨-, slot, -, -, hp⟩ := Page.insert_eq_ok.1 hinsert
    exact splits_keepPage_bind txn page hmid (resident_of_fetch hrun)
      (by rw [hp]; exact ⟨rfl, rfl, rfl⟩)
  · exact .still fun _ => rfl
  · exact .still fun _ => rfl

theorem divides_insertAmong (ns : List Nat) :
    Divides locking c (insertAmong locking file txn row ns) := by
  induction ns with
  | nil => exact .still fun _ => rfl
  | cons n ns ih =>
    refine .bind (divides_fetch _ _ _ _) ?_
    intro frame
    split
    · exact ih
    · refine .bind (divides_insertInto _ _ _) ?_
      intro result
      split
      · exact .still fun _ => rfl
      · exact ih

theorem divides_insertRow {id : TableId} {r : Registration} (hr : c.registration id = .ok r) :
    Divides locking c (insertRow locking r.file txn row) := by
  have hallocate : Divides locking c (allocate (σ := σ) r.file) :=
    .of_deed (.append r.file) ⟨id, r, hr, rfl⟩ (fun _ => trivial) rfl
  have hround : Divides locking c (insertRound locking r.file txn row) := by
    refine .bind (.still fun _ => rfl) ?_
    intro ns
    refine .bind (divides_insertAmong _ _ _ _) ?_
    intro result
    split
    · exact .still fun _ => rfl
    · exact hallocate.bind fun page => divides_insertInto _ _ _
  have hrounds (rounds : Nat) : Divides locking c (insertRounds locking r.file txn row rounds) := by
    induction rounds with
    | zero => exact .still fun _ => rfl
    | succ rounds ih =>
      refine .bind hround ?_
      intro result
      split
      · exact .still fun _ => rfl
      · exact ih
  unfold insertRow
  split
  · exact .still fun _ => rfl
  · exact .bind (.still fun _ => rfl) hrounds

theorem divides_deleteAmong (ns : List Nat) :
    Divides locking c (deleteAmong locking file txn row ns) := by
  induction ns with
  | nil => exact .still fun _ => rfl
  | cons n ns ih =>
    refine .bind (divides_fetch _ _ _ _) ?_
    intro seen
    split
    · refine (divides_fetch txn _ _ _).bind_of_run ?_
      intro frame _ mid hrun hmid hcatalog
      split
      · next p removed hdelete =>
        obtain ⟨slot, -, -, hp⟩ := Page.delete_eq_ok.1 hdelete
        exact splits_keepPage_bind txn _ hmid (resident_of_fetch hrun)
          (by rw [hp]; exact ⟨rfl, rfl, rfl⟩)
      · exact ih mid hmid hcatalog
      · exact .still fun _ => rfl
    · exact ih

theorem divides_discard : Divides locking c (discard (σ := σ) page) :=
  .of_deed (.discard page) trivial (fun _ => trivial) (id_map _)

theorem divides_flushPage : Divides locking c (flushPage (σ := σ) page) :=
  .of_deed (.flush page) trivial (fun _ => trivial) (id_map _)

theorem divides_flushEach (pages : List PageId) :
    Divides locking c (flushEach (σ := σ) pages) := by
  induction pages with
  | nil => exact .still fun _ => rfl
  | cons page pages ih => exact .bind (divides_flushPage page) fun _ => ih

theorem divides_discardAll (pages : List PageId) :
    Divides locking c (discardAll (σ := σ) pages) := by
  induction pages with
  | nil => exact .still fun _ => rfl
  | cons page pages ih => exact .bind (divides_discard page) fun _ => ih

theorem divides_complete (commit : Bool) : Divides locking c (complete locking txn commit) := by
  have hrelease : Divides locking c (onLocks (.update (locking.releaseAll txn))) :=
    .of_deed (.releaseAll txn) trivial (fun _ => trivial) (id_map _)
  cases commit with
  | true =>
    exact .bind (.bind (.still fun _ => rfl) divides_flushEach) fun _ => hrelease
  | false =>
    exact .bind (.still fun _ => rfl) fun pages =>
      .bind (divides_discardAll pages) fun _ => hrelease

/-- A scan tries one page after another, up to the first that cannot be fetched. -/
theorem drainPages_cons (n : Nat) (ns : List Nat) :
    Action.step (Cursor.drainPages locking file txn (n :: ns)) =
      .step (Cursor.pageRows locking file txn n).run >>= fun result =>
        match result with
        | .error e => pure ⟨[], some e⟩
        | .ok rows => (fun rest => ⟨rows ++ rest.rows, rest.failure⟩) <$>
            .step (Cursor.drainPages locking file txn ns) := by
  refine Action.ext_run fun db => ?_
  rw [Action.run_bind, Action.run_step, Action.run_step, Cursor.drainPages]
  rcases (Cursor.pageRows locking file txn n).run db with ⟨e | rows, mid⟩ <;> rfl

theorem divides_drainPages (ns : List Nat) :
    Divides locking c (.step (Cursor.drainPages locking file txn ns)) := by
  induction ns with
  | nil => exact .still fun _ => rfl
  | cons n ns ih =>
    have hrows : Divides locking c (Cursor.pageRows locking file txn n) :=
      .bind (divides_fetch _ _ _ _) fun _ => .still fun _ => rfl
    rw [drainPages_cons]
    refine .bind hrows.attempt ?_
    intro result
    split
    · exact .still fun _ => rfl
    · exact ih.map _

/-- A scan goes through the pages that the file has when it begins. -/
theorem scan_eq : Action.step (scan locking file txn) = (do
    let v ← .ask fun db => db.volume
    let rest ← .step (Cursor.drainPages locking file txn ((Cursor.new file txn).pagesLeft v))
    return ⟨[] ++ rest.rows, rest.failure⟩) := rfl

theorem divides_scan : Divides locking c (.step (scan locking file txn)) := by
  rw [scan_eq]
  exact .bind (.still fun _ => rfl) fun v =>
    (divides_drainPages _ _ _).bind fun _ => .still fun _ => rfl

theorem divides_perform (call : Call) : Divides locking c (Database.perform locking call) := by
  cases call with
  | insert txn table row =>
    exact .map _ (.lookup_bind fun r hr => divides_insertRow _ _ hr)
  | delete txn row =>
    refine .map _ ?_
    unfold Database.delete
    split
    · exact .still fun _ => rfl
    · refine .bind (.still fun _ => rfl) fun _ => .bind (.still fun _ => rfl) fun _ => ?_
      exact divides_deleteAmong _ _ _ _
  | fetch txn page access pinned => exact .map _ (divides_fetch _ _ _ _)
  | release txn page =>
    exact .map _ (.of_deed (.release txn page) trivial (fun _ => trivial) (id_map _))
  | flushPage page => exact .map _ (divides_flushPage page)
  | flushAll => exact .map _ (.bind (.still fun _ => rfl) divides_flushEach)
  | flushPages txn => exact .map _ (.bind (.still fun _ => rfl) divides_flushEach)
  | discard page => exact .map _ (divides_discard page)
  | complete txn commit => exact .map _ (divides_complete txn commit)
  | scan txn table =>
    exact .map _ (.bind (.still fun _ => rfl) fun r => divides_scan txn r.file)

end Database

/-- A run comes down to moves that leave the tables as they are. -/
theorem Run.trace {σ : Type} {locking : LockManager σ} {start db : Database σ}
    {steps : List (Step σ)} (hrun : Run locking start steps db) (hstart : start.cache.Housed) :
    ∃ moves, Trace locking start moves db ∧ ∀ m ∈ moves, m.deed.Within start.catalog := by
  induction hrun with
  | nil => exact ⟨[], .nil, by simp⟩
  | @cons steps s _ _ htaken ih =>
    obtain ⟨earlier, hearlier, hwithin⟩ := ih
    have hsplits : Database.Splits locking start.catalog (Database.perform locking s.call)
        s.before :=
      Database.divides_perform s.call s.before (hearlier.housed hstart)
        (hearlier.catalog_of_within hwithin)
    obtain ⟨later, hlater, hrest⟩ := hsplits
    have htrace := hlater.trace
    rw [htaken] at htrace
    exact ⟨later ++ earlier, hearlier.trans htrace, List.forall_mem_append.2 ⟨hrest, hwithin⟩⟩

end RowStore
