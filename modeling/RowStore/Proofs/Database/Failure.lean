import RowStore.Proofs.Database.Fate
import RowStore.Proofs.Database.InPlace

/-!
# Insertions and deletions that fail

Wherever an insertion or a deletion fails, what it did up to there is not seen: the caller's row is
as it was, and so is every page, what the files do not have of it yet, and the transaction that
changed it last. A page is marked as changed only once it is known to have room for the row, or to
hold it. The one trace that may be left is a page of zeros, at the end of a file without room for
the row.
-/

namespace RowStore

namespace Database

variable {σ : Type} {locking : LockManager σ} {txn : TxnId} {page : PageId} {row : Row}
  {r : Registration} {e : StorageError} {db mid db' : Database σ}

/-- Every page shows what it showed, the same pages are changed, by the same transactions, and the
files begin with the bytes that they had. -/
structure Unharmed (db db' : Database σ) : Prop where
  catalog_eq : db'.catalog = db.catalog
  cells?_eq : ∀ (page : PageId) (r : Registration), db.catalog.registration page.table = .ok r →
    page.number.toNat < r.file.pageCount db.volume →
    db'.view.cells? page = db.view.cells? page
  drafts_eq : db'.view.drafts = db.view.drafts
  bytes : ∀ path, db.volume.read path <+: db'.volume.read path

theorem Quiet.unharmed (h : Quiet db db') : Unharmed db db' where
  catalog_eq := h.catalog_eq
  cells?_eq _ _ _ _ := by rw [h.view_eq]
  drafts_eq := by rw [h.view_eq]
  bytes path := h.volume_eq ▸ List.prefix_rfl

/-- No page of the table had room, and the page that was appended to it could not be fetched. -/
structure Overgrown (locking : LockManager σ) (txn : TxnId) (r : Registration) (e : StorageError)
    (db db' : Database σ) : Prop where
  full : ∀ n < r.file.pageCount db.volume,
    ∃ cells, db.view.cells? (r.file.pageAt n) = some cells ∧ none ∉ cells
  refused : ∃ grown : Database σ, grown.volume = (r.file.allocate db.volume).2 ∧
    (fetch locking txn (r.file.allocate db.volume).1 .readWrite []).run grown = (.error e, db')
  read_eq : db'.volume.read r.file.path =
    db.volume.read r.file.path ++ Bytes.zeros r.file.pageSize
  read_other : ∀ path, path ≠ r.file.path → db'.volume.read path = db.volume.read path

/-- A page that was appended is none of those that were there. -/
theorem Grown.unharmed (h : Grown r page db mid) (hpage : page = (r.file.allocate db.volume).1)
    (htables : db.catalog.Intact db.volume) (hr : db.catalog.registration r.file.id = .ok r)
    (hsmall : r.file.pageCount db.volume < 0x100000000) : Unharmed db mid := by
  obtain ⟨slots, -, hview⟩ := h.view_eq
  refine ⟨h.catalog_eq, ?_, ?_, ?_⟩
  · intro q s hs hlt
    rw [hview, View.cells?_grow h.new, if_neg]
    rintro rfl
    rw [h.table_eq] at hs
    obtain rfl : r = s := Except.ok.inj (hr.symm.trans hs)
    rw [hpage, TableFile.number_allocate hsmall] at hlt
    exact Nat.lt_irrefl _ hlt
  · rw [hview]
    rfl
  · intro path
    rw [h.volume_eq]
    by_cases hpath : path = r.file.path
    · rw [hpath, (htables.file _ r hr).read_allocate_eq hsmall]
      exact List.prefix_append _ _
    · exact (TableFile.read_allocate_of_ne hpath).symm ▸ List.prefix_rfl

theorem Unharmed.withLocks (h : Unharmed db mid) (hdb : db' = { mid with locks := db'.locks }) :
    Unharmed db db' := by
  rw [hdb]
  exact ⟨h.catalog_eq, h.cells?_eq, h.drafts_eq, h.bytes⟩

/-- A page with room that refuses the row could not be fetched. -/
theorem Coherent.fetch_of_insertInto {cells : Cells} (h : db.Coherent)
    (hr : db.catalog.registration page.table = .ok r)
    (htypes : row.schema.types = r.file.schema.types)
    (hcells : db.view.cells? page = some cells) (hroom : none ∈ cells)
    (hrun : (Database.insertInto locking txn page row).run db = (.error e, db')) :
    (Database.fetch locking txn page .readWrite []).run db = (.error e, db') := by
  rcases hfetch : (Database.fetch locking txn page .readWrite []).run db with ⟨fetched, mid⟩
  rw [Database.insertInto, Action.run_bind, hfetch] at hrun
  rcases h.fetch hfetch with ⟨e', rfl, -⟩ | ⟨frame, rfl, hf⟩
  · obtain ⟨he, rfl⟩ := Prod.mk.inj hrun
    rw [Except.error.inj he]
  · obtain ⟨hb, -⟩ := hf.belongs hr
    obtain rfl := Option.some.inj (hf.shows.symm.trans hcells)
    obtain ⟨q, placed, hq⟩ := hb.sound.insert_ok (htypes.trans (hb.schema_eq ▸ rfl)) hroom
    simp only [hq] at hrun
    cases hrun

section

variable (h : db.Coherent) (hr : db.catalog.registration r.file.id = .ok r)
  (htypes : row.schema.types = r.file.schema.types)
  (hfits : Row.AllFit row.schema.types row.values)

include h hr htypes hfits

/-- Pages among which an insertion finds no room are full. -/
theorem Coherent.full_of_insertAmong {ns : List Nat}
    (hrun : (Database.insertAmong locking r.file txn row ns).run db = (.ok none, db')) :
    ∀ n ∈ ns, ∃ cells, db.view.cells? (r.file.pageAt n) = some cells ∧ none ∉ cells := by
  induction ns generalizing db with
  | nil => simp
  | cons n ns ih =>
    obtain ⟨frame, mid, hfetch, hrest⟩ := Action.run_bind_eq_ok.1 hrun
    obtain ⟨e, he, -⟩ | ⟨frame, ⟨⟩, hf⟩ := h.fetch hfetch
    · cases he
    have hr' : mid.catalog.registration r.file.id = .ok r := hf.catalog_eq ▸ hr
    obtain ⟨hb, -⟩ := hf.belongs hr
    have hview : mid.view = db.view := hf.view_eq
    split at hrest
    · next hfull =>
      have hns := ih hf.coherent hr' hrest
      rw [hview] at hns
      exact List.forall_mem_cons.2 ⟨⟨_, hf.shows, hb.sound.emptySlots_eq_zero.1 hfull⟩, hns⟩
    · next hfull =>
      have hroom : none ∈ frame.page.cells :=
        Decidable.not_not.1 fun hno => hfull (hb.sound.emptySlots_eq_zero.2 hno)
      obtain ⟨result, after, hinto, hrest⟩ := Action.run_bind_eq_ok.1 hrest
      obtain ⟨e, he, -⟩ | ⟨change, hchange, -⟩ := hf.coherent.insertInto hr' htypes hfits
        (hf.coherent.cells?_view hf.resident) hroom hinto
      · cases he
      · obtain rfl := Except.ok.inj hchange
        cases hrest

variable (hsmall : r.file.pageCount db.volume < 0x100000000)

include hsmall

/-- A round fails while it looks for room, or on the page that it appended. -/
theorem Coherent.insertRound_error
    (hrun : (Database.insertRound locking r.file txn row).run db = (.error e, db')) :
    Quiet db db' ∨ Unharmed db db' ∧ Overgrown locking txn r e db db' := by
  rcases hamong : (Database.insertAmong locking r.file txn row
    (List.range (r.file.pageCount db.volume))).run db with ⟨result, mid⟩
  rw [Database.insertRound, Action.run_bind, positions, Action.run_ask] at hrun
  simp only [Action.run_bind, hamong] at hrun
  rcases h.insertAmong hr htypes hfits hamong with ⟨e', rfl, hq⟩ | ⟨rfl, hq⟩ | ⟨change, _, rfl, -⟩
  · obtain ⟨-, rfl⟩ := Prod.mk.inj hrun
    exact .inl hq
  · obtain ⟨grown, hgrow, hg⟩ := hq.allocate hr hsmall
    obtain ⟨cells, hshown, hroom⟩ := hg.room
    simp only [Action.run_bind, hgrow] at hrun
    have hfetch := hg.coherent.fetch_of_insertInto (by rw [hg.catalog_eq, hg.table_eq]; exact hr)
      htypes hshown hroom hrun
    have hfailed : db' = { grown with locks := db'.locks } := by
      obtain ⟨-, -, hfailed⟩ | ⟨frame, hframe, -⟩ := hg.coherent.fetch hfetch
      · exact hfailed
      · cases hframe
    refine .inr ⟨(hg.unharmed rfl h.tables hr hsmall).withLocks hfailed, ?_⟩
    have hvolume : db'.volume = (r.file.allocate db.volume).2 := by
      rw [hfailed]
      exact hg.volume_eq
    refine ⟨?_, ⟨grown, hg.volume_eq, hfetch⟩, ?_, ?_⟩
    · intro n hn
      exact h.full_of_insertAmong hr htypes hfits hamong n (List.mem_range.2 hn)
    · rw [hvolume]
      exact (h.tables.file _ r hr).read_allocate_eq hsmall
    · intro path hpath
      rw [hvolume]
      exact TableFile.read_allocate_of_ne hpath
  · cases hrun

omit htypes in
theorem Coherent.insertRow_error
    (hrun : (Database.insertRow locking r.file txn row).run db = (.error e, db')) :
    Quiet db db' ∨ Unharmed db db' ∧ Overgrown locking txn r e db db' := by
  unfold Database.insertRow at hrun
  split at hrun
  · obtain ⟨-, rfl⟩ := Prod.mk.inj hrun
    exact .inl (.refl h)
  · next htypes =>
    have htypes := Decidable.not_not.1 htypes
    rcases hround : (Database.insertRound locking r.file txn row).run db with ⟨result, mid⟩
    rw [Action.run_bind, Action.run_ask] at hrun
    simp only [roundLimit, insertRounds, Action.run_bind, hround] at hrun
    rcases h.insertRound hr hsmall hfits htypes hround with ⟨e', rfl, -⟩ | ⟨change, rfl, -⟩
    · obtain ⟨he, rfl⟩ := Prod.mk.inj hrun
      obtain rfl := Except.error.inj he
      exact h.insertRound_error hr htypes hfits hsmall hround
    · cases hrun

end

theorem Coherent.insert_error {table : TableId} (h : db.Coherent) (hsmall : db.Small)
    (hvalid : row.Valid)
    (hrun : (Database.insert locking txn table row).run db = (.error e, db')) :
    Quiet db db' ∨ ∃ r, db.catalog.registration table = .ok r ∧ Unharmed db db' ∧
      Overgrown locking txn r e db db' := by
  rw [Database.insert, Action.run_bind, lookup, Action.run_query] at hrun
  cases hr : db.catalog.registration table with
  | error e' =>
    rw [hr] at hrun
    obtain ⟨-, rfl⟩ := Prod.mk.inj hrun
    exact .inl (.refl h)
  | ok r =>
    rw [hr] at hrun
    obtain rfl := h.tables.id_eq table r hr
    rcases h.insertRow_error hr (Row.valid_iff_allFit.1 hvalid) (hsmall _ r hr) hrun with
      hq | hgrown
    · exact .inl hq
    · exact .inr ⟨r, rfl, hgrown⟩

theorem Coherent.delete_error (h : db.Coherent)
    (hrun : (Database.delete locking txn row).run db = (.error e, db')) : Quiet db db' := by
  obtain ⟨e', -, hq⟩ | ⟨change, spot, hchange, -⟩ := h.delete hrun
  · exact hq
  · cases hchange

end Database

/-- An insertion or a deletion that fails, at whatever point and for whatever reason, leaves the
caller's row and all data as they were. It leaves the files as they were too, unless an insertion
found every page full and could not fetch the page of zeros that it appended. -/
theorem Run.failure_changes_nothing {σ : Type} {locking : LockManager σ} {start db : Database σ}
    {steps : List (Step σ)} (hfresh : start.Fresh) (hrun : Run locking start steps db)
    (hsmall : db.Small) (txn : TxnId) :
    (∀ (table : TableId) (row : { row : Row // row.Valid }) (e : StorageError)
        (db' : Database σ), (Database.insert locking txn table row.val).run db = (.error e, db') →
      (InPlace.insert locking txn table).run (row.val, db) = (.error e, row.val, db') ∧
        db.Unharmed db' ∧
        (db'.volume = db.volume ∨ ∃ r, db.catalog.registration table = .ok r ∧
          db.Overgrown locking txn r e db')) ∧
      ∀ (row : Row) (e : StorageError) (db' : Database σ),
        (Database.delete locking txn row).run db = (.error e, db') →
        (InPlace.delete locking txn).run (row, db) = (.error e, row, db') ∧
          db.Unharmed db' ∧ db'.volume = db.volume := by
  have hcoherent := hrun.coherent hfresh
  refine ⟨?_, ?_⟩
  · intro table row e db' hfailed
    have hrow := InPlace.run_insert locking txn table row.val db
    rw [hfailed] at hrow
    refine ⟨hrow, ?_⟩
    rcases hcoherent.insert_error hsmall row.property hfailed with hq | ⟨r, hr, hunharmed, hgrown⟩
    · exact ⟨hq.unharmed, .inl hq.volume_eq⟩
    · exact ⟨hunharmed, .inr ⟨r, hr, hgrown⟩⟩
  · intro row e db' hfailed
    have hrow := InPlace.run_delete locking txn row db
    rw [hfailed] at hrow
    have hq := hcoherent.delete_error hfailed
    exact ⟨hrow, hq.unharmed, hq.volume_eq⟩

/-- The one place in the cache is taken by a full page that was changed, so the page that is
appended for a third row cannot be fetched. A deletion of a row that is not there fails too. -/
theorem Run.failure_changes_nothing_cache_exhausted :
    ∃ steps db db' after, Run .permissive (Database.ofTable Database.numbers 9 1) steps db ∧
      (Database.insert .permissive ⟨2⟩ (TableFile.idOf ["t"]) (Database.number 7).val).run db =
        (.error .cacheExhausted, db') ∧
      (InPlace.insert .permissive ⟨2⟩ (TableFile.idOf ["t"])).run ((Database.number 7).val, db) =
        (.error .cacheExhausted, (Database.number 7).val, db') ∧
      db.Unharmed db' ∧
      (∃ r, db.catalog.registration (TableFile.idOf ["t"]) = .ok r ∧
        db.Overgrown .permissive ⟨2⟩ r .cacheExhausted db') ∧
      (Database.delete .permissive ⟨2⟩ (Row.mk Database.numbers [.int 8]
        (some ⟨⟨TableFile.idOf ["t"], 0⟩, 0⟩))).run db = (.error .rowNotFound, after) ∧
      db.Unharmed after ∧ after.volume = db.volume := by
  have hfresh : (Database.ofTable Database.numbers 9 1).Fresh :=
    .ofTable (by decide) (by decide) rfl
  have hrun := Run.of_calls .permissive (Database.ofTable Database.numbers 9 1)
    [.insert ⟨1⟩ (TableFile.idOf ["t"]) (Database.number 5),
      .insert ⟨1⟩ (TableFile.idOf ["t"]) (Database.number 6)] (by decide +kernel)
  generalize hplay : Database.play .permissive [] (Database.ofTable Database.numbers 9 1) _ = played
    at hrun
  have hsmall : played.2.Small := Database.small_of_entries (by rw [← hplay]; decide +kernel)
  obtain ⟨hinsert, hdelete⟩ := Run.failure_changes_nothing hfresh hrun hsmall ⟨2⟩
  have hexhausted : ((Database.insert .permissive ⟨2⟩ (TableFile.idOf ["t"])
      (Database.number 7).val).run played.2).1 = .error .cacheExhausted := by
    rw [← hplay]
    decide +kernel
  have hmissing : ((Database.delete .permissive ⟨2⟩ (Row.mk Database.numbers [.int 8]
      (some ⟨⟨TableFile.idOf ["t"], 0⟩, 0⟩))).run played.2).1 = .error .rowNotFound := by
    rw [← hplay]
    decide +kernel
  have hgrown : ((Database.insert .permissive ⟨2⟩ (TableFile.idOf ["t"])
      (Database.number 7).val).run played.2).2.volume ≠ played.2.volume := by
    rw [← hplay]
    decide +kernel
  obtain ⟨hrow, hunharmed, hvolume⟩ := hinsert _ _ _ _ (Prod.ext hexhausted rfl)
  obtain ⟨-, hkept, hsame⟩ := hdelete _ _ _ (Prod.ext hmissing rfl)
  exact ⟨_, _, _, _, hrun, Prod.ext hexhausted rfl, hrow, hunharmed,
    hvolume.resolve_left hgrown, Prod.ext hmissing rfl, hkept, hsame⟩

end RowStore
