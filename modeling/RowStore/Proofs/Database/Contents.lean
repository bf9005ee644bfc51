import RowStore.Proofs.Database.Run

/-!
# A table as a map from places to rows

Whatever the cache holds, flushes and gives up, the rows that are shown behave as a finite map. An
insertion adds one entry at a free place, a deletion removes one entry with the values of the row,
a scan yields the entries of its table in order, and no other call that keeps the drafts changes
the map; nor does any call that fails.
-/

namespace RowStore

/-- Calls that give up drafts. -/
def Call.GivesUp : Call → Prop
  | .discard _ => True
  | .complete _ false => True
  | _ => False

/-- What a step does to the map from places to values. -/
def Step.ActsOnMap {σ : Type} (s : Step σ) : Prop :=
  match s.call, s.answer with
  | .insert _ table row, .ok (.changed change) => ∃ spot : RowId, spot.page.table = table ∧
      change.row.place = some spot ∧ change.row.values = row.val.values ∧
      s.before.contents spot = none ∧
      s.after.contents = Function.update s.before.contents spot (some row.val.values)
  | .delete _ row, .ok (.changed _) => ∃ spot place : RowId, row.place = some place ∧
      spot.page.table = place.page.table ∧ s.before.contents spot = some row.values ∧
      s.after.contents = Function.update s.before.contents spot none
  | .scan _ table, .ok (.scanned yielded) => s.after.contents = s.before.contents ∧
      (yielded.failure = none → s.before.Lists table yielded.rows)
  | _, _ => s.after.contents = s.before.contents

namespace Database

variable {σ : Type} {locking : LockManager σ} {txn : TxnId} {db db' : Database σ}

theorem contents_of_view_eq (h : db'.view = db.view) : db'.contents = db.contents := by
  funext spot
  rw [contents, h, contents]

theorem Fruitless.contents_eq (h : Fruitless db db') : db'.contents = db.contents :=
  funext h.mayGrow.row?_eq

theorem Flushed.contents_eq {pages : List PageId} (h : Flushed pages db db') :
    db'.contents = db.contents := by
  funext spot
  rw [contents, h.view_eq, View.row?_flushAll, contents]

theorem Inserted.contents_eq {table : TableId} {row : Row} {change : Change}
    (h : Inserted txn table row change db db') :
    ∃ spot : RowId, spot.page.table = table ∧ change.row.place = some spot ∧
      db.contents spot = none ∧
      db'.contents = Function.update db.contents spot (some row.values) := by
  obtain ⟨w, spot, hgrow, htable, hplace, hempty, hwrote⟩ := h.wrote
  refine ⟨spot, htable, hplace, (hgrow.row?_eq spot).symm.trans hempty, funext fun place => ?_⟩
  rw [Function.update_apply, contents, hwrote.row?_eq, hgrow.row?_eq]
  rfl

theorem Deleted.contents_eq {table : TableId} {row : Row} {change : Change}
    (h : Deleted txn table row change db db') :
    ∃ spot : RowId, spot.page.table = table ∧ db.contents spot = some row.values ∧
      db'.contents = Function.update db.contents spot none := by
  obtain ⟨spot, htable, hrow, hwrote⟩ := h.wrote
  refine ⟨spot, htable, hrow, funext fun place => ?_⟩
  rw [Function.update_apply, contents, hwrote.row?_eq]
  rfl

/-- The slots of one page. -/
def placesIn (db : Database σ) (page : PageId) : List RowId :=
  match db.view.cells? page with
  | some cells => (List.range cells.length).map fun slot => ⟨page, slot⟩
  | none => []

/-- The slots of the pages of all tables. -/
def places (db : Database σ) : List RowId :=
  db.catalog.byId.entries.flatMap fun e =>
    (List.range (e.2.file.pageCount db.volume)).flatMap fun n =>
      db.placesIn ⟨e.1, n.toUInt32⟩

/-- A place that holds a row is a slot of a page of a registered table. -/
theorem Coherent.mem_places (h : db.Coherent) {spot : RowId} (hrow : db.contents spot ≠ none) :
    spot ∈ db.places := by
  obtain ⟨page, slot⟩ := spot
  obtain ⟨values, hrow⟩ := Option.ne_none_iff_exists'.1 hrow
  obtain ⟨cells, hcells, hat⟩ := Option.bind_eq_some_iff.1 hrow
  obtain ⟨r, hr, hlt⟩ := h.number_lt hcells
  have hmem : (page.table, r) ∈ db.catalog.byId.entries :=
    Keyed.mem_entries_of_get? (Catalog.registration_eq_ok.1 hr)
  refine List.mem_flatMap.2 ⟨_, hmem, List.mem_flatMap.2 ⟨page.number.toNat, ?_, ?_⟩⟩
  · exact List.mem_range.2 hlt
  · have hpage : (⟨page.table, page.number.toNat.toUInt32⟩ : PageId) = page := by simp
    rw [hpage, placesIn, hcells]
    exact List.mem_map.2 ⟨slot, List.mem_range.2 (Cells.lt_of_at?_eq_some hat), rfl⟩

theorem Effect.actsOnMap {call : Call} {answer : Except StorageError Answer}
    (h : Effect db db' call answer) (hkeep : ¬ call.GivesUp) :
    Step.ActsOnMap ⟨db, call, answer, db'⟩ := by
  cases h with
  | inserted hi =>
    obtain ⟨spot, htable, hplace, hempty, hcontents⟩ := hi.contents_eq
    exact ⟨spot, htable, hplace, hi.values_eq, hempty, hcontents⟩
  | fruitless hf => exact hf.contents_eq
  | deleted hplace hd =>
    obtain ⟨spot, htable, hrow, hcontents⟩ := hd.contents_eq
    exact ⟨spot, _, hplace, htable, hrow, hcontents⟩
  | fetched hf =>
    funext spot
    show db'.view.row? spot = db.view.row? spot
    rw [View.row?, hf.cells?_eq, View.row?]
  | released hq => exact contents_of_view_eq hq.view_eq
  | scanned hq hlists => exact ⟨contents_of_view_eq hq.view_eq, hlists⟩
  | failed hq =>
    have hcontents := contents_of_view_eq hq.view_eq
    cases call with
    | _ => exact hcontents
  | flushed hcall hf _ =>
    have hcontents := hf.contents_eq
    cases call with
    | flushPage | flushAll | flushPages | complete => exact hcontents
    | _ => cases hcall
  | discarded hcall _ _ _ =>
    cases call with
    | discard page => exact absurd trivial hkeep
    | complete txn commit =>
      cases commit with
      | true => cases hcall
      | false => exact absurd trivial hkeep
    | _ => cases hcall

end Database

/-- A scan yields what a new cursor over the table yields that is asked for row after row. -/
def Step.YieldsByCursor {σ : Type} (locking : LockManager σ) (s : Step σ) : Prop :=
  match s.call, s.answer with
  | .scan txn table, .ok (.scanned yielded) => ∃ r c,
      s.before.catalog.registration table = .ok r ∧
        Cursor.Drains locking (Cursor.new r.file txn, s.before) yielded (c, s.after)
  | _, _ => True

theorem Step.Taken.yieldsByCursor {σ : Type} {locking : LockManager σ} {s : Step σ}
    (h : s.Taken locking) : s.YieldsByCursor locking := by
  rw [Taken] at h
  unfold YieldsByCursor
  split
  · next txn table yielded hcall hanswer =>
    rw [hcall, hanswer] at h
    obtain ⟨result, hscan, hresult⟩ := Action.run_map_eq h
    obtain rfl : result = .ok yielded := by
      cases result with
      | error e => cases hresult
      | ok a => rw [Answer.scanned.inj (Except.ok.inj hresult)]
    obtain ⟨r, mid, hlookup, hscan⟩ := Action.run_bind_eq_ok.1 hscan
    obtain ⟨hr, rfl⟩ := Prod.mk.inj hlookup
    obtain ⟨hyielded, hafter⟩ := Prod.mk.inj hscan
    rw [← Except.ok.inj hyielded, ← hafter]
    obtain ⟨c, hdrains⟩ := Cursor.drains locking (Cursor.new r.file txn) s.before
    exact ⟨r, c, hr, hdrains⟩
  · trivial

/-- After any run the shown rows are finitely many, every call that does not give up drafts acts on
them as on a map, and every scan goes row by row. -/
theorem Run.acts_on_map {σ : Type} {locking : LockManager σ} {start db : Database σ}
    {steps : List (Step σ)} (hfresh : start.Fresh) (hrun : Run locking start steps db) :
    (∃ spots : List RowId, ∀ spot, db.contents spot ≠ none → spot ∈ spots) ∧
      ∀ s ∈ steps, (¬ s.call.GivesUp → s.ActsOnMap) ∧ s.YieldsByCursor locking := by
  refine ⟨⟨db.places, fun spot => (hrun.coherent hfresh).mem_places⟩, ?_⟩
  intro s hs
  obtain ⟨hc, hsmall, htaken⟩ := hrun.before_coherent hfresh s hs
  exact ⟨(hc.effect hsmall htaken).actsOnMap, htaken.yieldsByCursor⟩

/-- Rows on two pages, in a cache that holds one of them. The scan comes after a flush, so that it
can give up each page for the next one. -/
theorem Run.acts_on_map_two_pages :
    (Database.ofTable Database.numbers 9 1).Fresh ∧
      ∃ s steps db, Run .permissive (Database.ofTable Database.numbers 9 1) (s :: steps) db ∧
        steps.map (fun s => s.answer.isOk) =
          [true, true, true, false, true, true, true, true] ∧
        s.call = .scan ⟨3⟩ (TableFile.idOf ["t"]) ∧
        s.answer = .ok (.scanned
          ⟨[⟨Database.numbers, [.int 6], some ⟨⟨TableFile.idOf ["t"], 0⟩, 1⟩⟩,
            ⟨Database.numbers, [.int 7], some ⟨⟨TableFile.idOf ["t"], 1⟩, 0⟩⟩], none⟩) ∧
        (∃ spots : List RowId, ∀ spot, db.contents spot ≠ none → spot ∈ spots) ∧
        ∀ s' ∈ s :: steps, (¬ s'.call.GivesUp → s'.ActsOnMap) ∧
          s'.YieldsByCursor .permissive := by
  let calls : List Call :=
    [.insert ⟨1⟩ (TableFile.idOf ["t"]) (Database.number 5),
      .insert ⟨1⟩ (TableFile.idOf ["t"]) (Database.number 6), .flushAll,
      .insert ⟨2⟩ (TableFile.idOf ["t"]) (Database.number 7),
      .fetch ⟨1⟩ ⟨TableFile.idOf ["t"], 0⟩ .readOnly [], .complete ⟨2⟩ true,
      .delete ⟨1⟩ { (Database.number 5).val with place := some ⟨⟨TableFile.idOf ["t"], 1⟩, 0⟩ },
      .flushAll, .scan ⟨3⟩ (TableFile.idOf ["t"])]
  have hfresh : (Database.ofTable Database.numbers 9 1).Fresh :=
    .ofTable (by decide) (by decide) rfl
  have hrun := Run.of_calls .permissive (Database.ofTable Database.numbers 9 1) calls
    (by decide +kernel)
  exact ⟨hfresh, _, _, _, hrun, by decide +kernel, rfl, by decide +kernel,
    Run.acts_on_map hfresh hrun⟩

end RowStore
