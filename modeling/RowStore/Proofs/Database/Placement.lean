import RowStore.Proofs.Database.Current
import RowStore.Proofs.Database.Failure
import RowStore.Proofs.Page.Slots

/-!
# Where a row goes

An insertion looks at the pages of the file one after another and takes the first that has room, in
memory or on disk, and of its slots the lowest that is empty. If no page has room it appends one
page of zeros and takes its first slot. The page that it asks to write is the one that it found, so
it still has room there, and so does a page that was just appended: the search is made once.
-/

namespace RowStore

namespace Page

variable {p q : Page} {f : TableFile}

/-- Which slots are empty can be told by the values in them. -/
theorem BelongsTo.lowestEmpty (hp : p.BelongsTo f) (hq : q.BelongsTo f) (hid : p.id = q.id)
    (hcells : p.cells = q.cells) {slot : Nat} (h : p.LowestEmpty slot) : q.LowestEmpty slot := by
  have hsome (i : Nat) : (q.row? i).isSome = (p.row? i).isSome := by
    have hfacts := congrArg Option.isSome (hp.row?_facts_eq hq hid hcells i)
    simpa using hfacts.symm
  refine ⟨?_, ?_, fun i hi => (hsome i).trans (h.lowest i hi)⟩
  · rw [slotCount, ← (hp.matches hq hid hcells).layout_eq]
    exact h.lt
  · have hempty := hsome slot
    rw [h.empty] at hempty
    simpa using hempty

end Page

namespace Database

variable {σ : Type} {locking : LockManager σ} {txn : TxnId} {page : PageId} {row : Row}
  {r : Registration} {change : Change} {start db mid db' : Database σ}

/-- An insertion into one page that succeeds fetched the page, and put the row into it. -/
theorem insertInto_eq_ok
    (hrun : (insertInto locking txn page row).run db = (.ok (some change), db')) :
    ∃ frame mid p, (fetch locking txn page .readWrite []).run db = (.ok frame, mid) ∧
      frame.page.insert row = .ok (p, change.row) ∧ change.handle = frame.handle ∧
      (keepPage txn frame p).run mid = (.ok (), db') := by
  obtain ⟨frame, mid, hfetch, hrest⟩ := Action.run_bind_eq_ok.1 hrun
  split at hrest
  · next p placed hinsert =>
    obtain ⟨_, after, hkeep, hanswer⟩ := Action.run_bind_eq_ok.1 hrest
    obtain ⟨hchange, rfl⟩ := Prod.mk.inj hanswer
    obtain rfl := Option.some.inj (Except.ok.inj hchange)
    exact ⟨frame, mid, p, hfetch, hinsert, rfl, hkeep⟩
  · cases hrest
  · cases hrest

/-- What an insertion into one page makes of it. -/
theorem Coherent.revised_of_insertInto {before : Page} (h : db.Coherent) (hstart : start.Coherent)
    (hbeside : Beside page start db) (hr : db.catalog.registration page.table = .ok r)
    (hfits : Row.AllFit row.schema.types row.values) (hbefore : before.BelongsTo r.file)
    (hid : before.id = page) (hcells : db.view.cells? page = some before.cells)
    (hrun : (Database.insertInto locking txn page row).run db = (.ok (some change), db')) :
    ∃ slot, before.LowestEmpty slot ∧ change.row = { row with place := some ⟨page, slot⟩ } ∧
      Revised txn page slot (some change.row) change.handle before start db' ∧
      db'.volume = db.volume := by
  obtain ⟨frame, mid, p, hfetch, hinsert, hhandle, hkeep⟩ := insertInto_eq_ok hrun
  obtain ⟨e, he, -⟩ | ⟨seen, hseen, hf⟩ := h.fetch hfetch
  · cases he
  obtain rfl := Except.ok.inj hseen
  obtain ⟨hb, hfid⟩ := hf.belongs hr
  obtain ⟨slot, hslot, hplaced, hp⟩ := hb.sound.insert_lowestEmpty hinsert
  have hsame : frame.page.cells = before.cells := Option.some.inj (hf.shows.symm.trans hcells)
  have hsound := hb.sound.insert hfits hinsert
  have hlt : slot < frame.page.slots.length := by
    rw [hb.sound.length_eq]
    exact hslot.lt
  refine ⟨slot, hb.lowestEmpty hbefore (hfid.trans hid.symm) hsame hslot, hfid ▸ hplaced, ?_, ?_⟩
  · rw [hhandle]
    exact hf.revised hstart hbeside hr hbefore hid hcells hsound hlt hp hkeep
  · obtain ⟨-, rfl⟩ := Prod.mk.inj hkeep
    exact hf.volume_eq

/-! ## The search -/

/-- The page at a position is there, and every slot of it has a row. -/
def FullAt (db : Database σ) (file : TableFile) (n : Nat) : Prop :=
  ∃ p, db.current? (file.pageAt n) = some p ∧ p.Full

theorem Coherent.fullAt {cells : Cells} {n : Nat} (h : db.Coherent)
    (hr : db.catalog.registration r.file.id = .ok r)
    (hcells : db.view.cells? (r.file.pageAt n) = some cells) (hfull : none ∉ cells) :
    db.FullAt r.file n := by
  obtain ⟨p, hp, hb, -, rfl⟩ := h.current?_belongsTo hr hcells
  exact ⟨p, hp, hb.sound.full_iff.2 hfull⟩

section

variable (h : db.Coherent) (hr : db.catalog.registration r.file.id = .ok r)
  (htypes : row.schema.types = r.file.schema.types)
  (hfits : Row.AllFit row.schema.types row.values)

include h hr htypes hfits

/-- Going through pages from a position on, an insertion that succeeds passes full pages only, and
comes to a page with room when nothing has changed yet. -/
theorem Coherent.search_of_insertAmong (hstart : start.Coherent) (hquiet : Quiet start db)
    {first count : Nat}
    (hrun : (Database.insertAmong locking r.file txn row (List.range' first count)).run db =
      (.ok (some change), db')) :
    ∃ n mid, first ≤ n ∧ n < first + count ∧ Quiet start mid ∧
      (∀ m, first ≤ m → m < n → start.FullAt r.file m) ∧
      (Database.insertInto locking txn (r.file.pageAt n) row).run mid =
        (.ok (some change), db') := by
  induction count generalizing first db with
  | zero => cases hrun
  | succ count ih =>
    rw [List.range'_succ] at hrun
    obtain ⟨frame, mid, hfetch, hrest⟩ := Action.run_bind_eq_ok.1 hrun
    obtain ⟨e, he, -⟩ | ⟨frame, ⟨⟩, hf⟩ := h.fetch hfetch
    · cases he
    have hmid := hquiet.trans (Quiet.of_fetched hf)
    have hr' : mid.catalog.registration r.file.id = .ok r := hf.catalog_eq ▸ hr
    obtain ⟨hb, -⟩ := hf.belongs hr
    split at hrest
    · next hfull =>
      have hshown : start.view.cells? (r.file.pageAt first) = some frame.page.cells :=
        hquiet.view_eq ▸ hf.shows
      have hfirst := hstart.fullAt (hquiet.catalog_eq ▸ hr) hshown
        (hb.sound.emptySlots_eq_zero.1 hfull)
      obtain ⟨n, found, hle, hlt, hfound, hbelow, hinto⟩ := ih hf.coherent hr' hmid hrest
      refine ⟨n, found, Nat.le_of_succ_le hle, by omega, hfound, ?_, hinto⟩
      intro m hm hmn
      rcases Nat.eq_or_lt_of_le hm with rfl | hlater
      · exact hfirst
      · exact hbelow m hlater hmn
    · next hroom =>
      have hroom : none ∈ frame.page.cells :=
        Decidable.not_not.1 fun hno => hroom (hb.sound.emptySlots_eq_zero.2 hno)
      obtain ⟨result, after, hinto, hrest⟩ := Action.run_bind_eq_ok.1 hrest
      obtain ⟨e, he, -⟩ | ⟨found, ⟨⟩, -⟩ := hf.coherent.insertInto hr' htypes hfits
        (hf.coherent.cells?_view hf.resident) hroom hinto
      · cases he
      obtain ⟨hchange, rfl⟩ := Prod.mk.inj hrest
      obtain rfl := Option.some.inj (Except.ok.inj hchange)
      exact ⟨first, mid, Nat.le_refl _, by omega, hmid, fun m _ _ => by omega, hinto⟩

variable (hsmall : r.file.pageCount db.volume < 0x100000000)

include hsmall

/-- The search is made once: it ends with the row stored, or with an error. -/
theorem Coherent.insertRound_ne_none :
    (Database.insertRound locking r.file txn row).run db ≠ (.ok none, mid) := by
  intro hrun
  rcases h.insertRound hr hsmall hfits htypes hrun with ⟨e, he, -⟩ | ⟨change, hchange, -⟩
  · cases he
  · cases hchange

/-- Allowing more rounds makes no difference. -/
theorem Coherent.insertRounds_eq (rounds : Nat) :
    (Database.insertRounds locking r.file txn row (rounds + 1)).run db =
      (Database.insertRow locking r.file txn row).run db := by
  rw [Database.insertRow, if_neg (not_not.2 htypes), Action.run_bind, Action.run_ask]
  simp only [roundLimit, insertRounds, Action.run_bind]
  rcases hround : (Database.insertRound locking r.file txn row).run db with ⟨_ | _ | change, mid⟩
  · rfl
  · exact absurd hround (h.insertRound_ne_none hr htypes hfits hsmall)
  · rfl

end

/-- Where an insertion into a table put the row: into the first page with room, or into a page that
was appended because there was none. -/
inductive Stored (txn : TxnId) (r : Registration) (row : Row) (change : Change)
    (db db' : Database σ) : Prop
  | found (n slot : Nat) (before : Page) : n < r.file.pageCount db.volume →
      (∀ m, m < n → db.FullAt r.file m) →
      db.current? (r.file.pageAt n) = some before → before.LowestEmpty slot →
      change.row = { row with place := some ⟨r.file.pageAt n, slot⟩ } →
      Revised txn (r.file.pageAt n) slot (some change.row) change.handle before db db' →
      db'.volume = db.volume → Stored txn r row change db db'
  | appended (before : Page) : (∀ m, m < r.file.pageCount db.volume → db.FullAt r.file m) →
      db.current? (r.file.pageAt (r.file.pageCount db.volume)) = none →
      Page.empty (r.file.pageAt (r.file.pageCount db.volume)) r.file.schema r.file.pageSize =
        .ok before →
      change.row =
        { row with place := some ⟨r.file.pageAt (r.file.pageCount db.volume), 0⟩ } →
      Revised txn (r.file.pageAt (r.file.pageCount db.volume)) 0 (some change.row) change.handle
        before db db' →
      db'.volume.read r.file.path =
        db.volume.read r.file.path ++ Bytes.zeros r.file.pageSize →
      (∀ path, path ≠ r.file.path → db'.volume.read path = db.volume.read path) →
      Stored txn r row change db db'

/-- The page that was appended is an empty one, and the only one that shows something else. -/
theorem Grown.empty (h : Grown r page db mid) (hpage : page = (r.file.allocate db.volume).1)
    (hr : db.catalog.registration r.file.id = .ok r) (hi : r.file.Intact db.volume)
    (hsmall : r.file.pageCount db.volume < 0x100000000) :
    Beside page db mid ∧ ∃ before, Page.empty page r.file.schema r.file.pageSize = .ok before ∧
      before.BelongsTo r.file ∧ before.id = page ∧ mid.view.cells? page = some before.cells ∧
      ∀ i, before.row? i = none := by
  obtain ⟨slots, -, hview⟩ := h.view_eq
  refine ⟨⟨h.catalog_eq, ?_, ?_⟩, ?_⟩
  · intro q hq
    rw [hview, View.cells?_grow h.new, if_neg hq]
  · intro q _
    rw [hview]
    rfl
  · obtain ⟨layout, hlayout⟩ := hi.layout
    have hempty : Page.empty page r.file.schema r.file.pageSize = _ :=
      Page.empty_eq_ok hlayout hi.schema hi.pageSize_lt
    have hread : r.file.readPage mid.volume page =
        .ok (Page.blank page r.file.schema layout).reread := by
      rw [h.volume_eq, TableFile.readPage_allocate hsmall, if_pos hpage, hempty]
    refine ⟨_, hempty, TableFile.belongsTo_of_readPage hread, rfl, ?_, ?_⟩
    · have hnone : db.view.drafts page = none := View.drafts_of_cells?_eq_none h.new
      have hdraft : mid.view.drafts page = none := by
        rw [hview]
        exact hnone
      have hstored : mid.catalog.stored? mid.volume page =
          some (Page.blank page r.file.schema layout).reread := by
        refine Catalog.stored?_eq_some.2 ⟨r, ?_, hread⟩
        rw [h.catalog_eq, h.table_eq, hr]
      rw [View.cells?_of_no_draft hdraft]
      exact congrArg (Option.map Page.cells) hstored
    · intro i
      rw [Page.row?_reread, Page.row?_blank]
      rfl

section

variable (h : db.Coherent) (hr : db.catalog.registration r.file.id = .ok r)
  (hfits : Row.AllFit row.schema.types row.values)

include h hr hfits

/-- The search found a page with room. -/
theorem Coherent.stored_found {n : Nat} (hquiet : Quiet db mid)
    (hlt : n < r.file.pageCount db.volume) (hbelow : ∀ m, m < n → db.FullAt r.file m)
    (hrun : (Database.insertInto locking txn (r.file.pageAt n) row).run mid =
      (.ok (some change), db')) : Stored txn r row change db db' := by
  obtain ⟨frame, after, p, hfetch, -⟩ := insertInto_eq_ok hrun
  obtain ⟨e, he, -⟩ | ⟨seen, -, hf⟩ := hquiet.coherent.fetch hfetch
  · cases he
  obtain ⟨before, hbefore, hb, hid, hsame⟩ := h.current?_belongsTo hr (hquiet.view_eq ▸ hf.shows)
  have hcells : mid.view.cells? (r.file.pageAt n) = some before.cells := hsame ▸ hf.shows
  obtain ⟨slot, hslot, hrow, hrevised, hvolume⟩ := hquiet.coherent.revised_of_insertInto h
    (hquiet.beside _) (hquiet.catalog_eq ▸ hr) hfits hb hid hcells hrun
  exact .found n slot before hlt hbelow hbefore hslot hrow hrevised (hvolume.trans hquiet.volume_eq)

/-- The search found no page with room, and one was appended. -/
theorem Coherent.stored_appended (hsmall : r.file.pageCount db.volume < 0x100000000)
    (hgrown : Grown r (r.file.allocate db.volume).1 db mid)
    (hfull : ∀ m, m < r.file.pageCount db.volume → db.FullAt r.file m)
    (hrun : (Database.insertInto locking txn (r.file.allocate db.volume).1 row).run mid =
      (.ok (some change), db')) : Stored txn r row change db db' := by
  have hi := h.tables.file _ r hr
  obtain ⟨hbeside, before, hempty, hb, hid, hcells, hnone⟩ := hgrown.empty rfl hr hi hsmall
  have hr' : mid.catalog.registration (r.file.allocate db.volume).1.table = .ok r :=
    hgrown.catalog_eq ▸ hr
  obtain ⟨slot, hslot, hrow, hrevised, hvolume⟩ := hgrown.coherent.revised_of_insertInto h
    hbeside hr' hfits hb hid hcells hrun
  obtain rfl : slot = 0 := by
    by_contra hne
    have hsome := hslot.lowest 0 (Nat.pos_of_ne_zero hne)
    rw [hnone] at hsome
    cases hsome
  have hread : db'.volume = (r.file.allocate db.volume).2 := hvolume.trans hgrown.volume_eq
  refine .appended before hfull ?_ hempty hrow hrevised ?_ ?_
  · cases hp : db.current? (r.file.allocate db.volume).1 with
    | none => exact hp
    | some p =>
      have hshown := (h.shown hp).cells?_eq
      rw [hgrown.new] at hshown
      cases hshown
  · rw [hread, hi.read_allocate_eq hsmall]
  · intro path hpath
    rw [hread, TableFile.read_allocate_of_ne hpath]

theorem Coherent.stored (hsmall : r.file.pageCount db.volume < 0x100000000)
    (hrun : (Database.insertRow locking r.file txn row).run db = (.ok change, db')) :
    Stored txn r row change db db' := by
  by_cases htypes : row.schema.types = r.file.schema.types
  · rw [← h.insertRounds_eq hr htypes hfits hsmall 0, insertRounds] at hrun
    obtain ⟨result, last, hround, hrest⟩ := Action.run_bind_eq_ok.1 hrun
    cases result with
    | none => exact absurd hround (h.insertRound_ne_none hr htypes hfits hsmall)
    | some found =>
      obtain ⟨hchange, rfl⟩ := Prod.mk.inj hrest
      obtain rfl := Except.ok.inj hchange
      rw [Database.insertRound, Action.run_bind, positions, Action.run_ask] at hround
      obtain ⟨among, mid, hamong, hrest⟩ := Action.run_bind_eq_ok.1 hround
      cases among with
      | some placed =>
        obtain ⟨hplaced, rfl⟩ := Prod.mk.inj hrest
        obtain rfl := Option.some.inj (Except.ok.inj hplaced)
        rw [List.range_eq_range'] at hamong
        obtain ⟨n, after, -, hlt, hquiet, hbelow, hinto⟩ :=
          h.search_of_insertAmong hr htypes hfits h (.refl h) hamong
        exact h.stored_found hr hfits hquiet (by omega) (fun m => hbelow m (Nat.zero_le m)) hinto
      | none =>
        have hquiet : Quiet db mid := by
          rcases h.insertAmong hr htypes hfits hamong with
            ⟨e, he, -⟩ | ⟨-, hq⟩ | ⟨found, -, he, -⟩
          · cases he
          · exact hq
          · cases he
        obtain ⟨grown, hgrow, hg⟩ := hquiet.allocate hr hsmall
        rw [Action.run_bind, hgrow] at hrest
        refine h.stored_appended hr hfits hsmall hg ?_ hrest
        intro m hm
        obtain ⟨cells, hcells, hno⟩ :=
          h.full_of_insertAmong hr htypes hfits hamong m (List.mem_range.2 hm)
        exact h.fullAt hr hcells hno
  · rw [Database.insertRow, if_pos htypes] at hrun
    cases hrun

end

end Database

/-- Inserting into the file of a table, in any state that is reached: the search for a page is made
once, and it stores the row where it should go. -/
theorem Reaches.insertion_takes_first_room {σ : Type} {locking : LockManager σ}
    {start db : Database σ} {table : TableId} {r : Registration} (hfresh : start.Fresh)
    (hreach : Reaches locking start db) (hr : db.catalog.registration table = .ok r)
    (hsmall : r.file.pageCount db.volume < 0x100000000) (txn : TxnId)
    (row : { row : Row // row.Valid }) :
    (row.val.schema.types = r.file.schema.types →
        (∀ mid, (Database.insertRound locking r.file txn row.val).run db ≠ (.ok none, mid)) ∧
        ∀ rounds, (Database.insertRounds locking r.file txn row.val (rounds + 1)).run db =
          (Database.insertRow locking r.file txn row.val).run db) ∧
      ∀ change db', (Database.insertRow locking r.file txn row.val).run db = (.ok change, db') →
        Database.Stored txn r row.val change db db' := by
  have h := hreach.coherent hfresh
  have hfits := Row.valid_iff_allFit.1 row.property
  obtain rfl := h.tables.id_eq table r hr
  refine ⟨fun htypes => ⟨?_, ?_⟩, ?_⟩
  · intro mid
    exact h.insertRound_ne_none hr htypes hfits hsmall
  · exact h.insertRounds_eq hr htypes hfits hsmall
  · intro change db' hrun
    exact h.stored hr hfits hsmall hrun

/-- Two pages, of which the first was full until a row of it was deleted through its file, by a
transaction that is not over. The next row goes where that one was, although the second page has
room too. -/
theorem Reaches.insertion_takes_first_room_vacated :
    ∃ (db db' : Database Unit) (r : Registration) (change : Change),
      Reaches .permissive (Database.ofTable Database.numbers 9 1) db ∧
        db.catalog.registration (TableFile.idOf ["t"]) = .ok r ∧
        r.file.pageCount db.volume = 2 ∧
        (Database.insertRow .permissive r.file ⟨2⟩ (Database.number 8).val).run db =
          (.ok change, db') ∧
        change.row.place = some ⟨⟨TableFile.idOf ["t"], 0⟩, 0⟩ ∧
        Database.Stored ⟨2⟩ r (Database.number 8).val change db db' := by
  let r : Registration :=
    ⟨⟨["t"], TableFile.idOf ["t"], Database.numbers, 9⟩, "t", "", .none⟩
  let played := Database.play .permissive [] (Database.ofTable Database.numbers 9 1)
    [.insert ⟨1⟩ (TableFile.idOf ["t"]) (Database.number 5),
      .insert ⟨1⟩ (TableFile.idOf ["t"]) (Database.number 6),
      .complete ⟨1⟩ true,
      .insert ⟨1⟩ (TableFile.idOf ["t"]) (Database.number 7),
      .complete ⟨1⟩ true]
  let deleted := (Database.deleteRow .permissive r.file ⟨2⟩
    ⟨Database.numbers, [.int 5], none⟩).run played.2
  have hfresh : (Database.ofTable Database.numbers 9 1).Fresh :=
    .ofTable (by decide) (by decide) rfl
  have hrun : Run .permissive (Database.ofTable Database.numbers 9 1) played.1 played.2 :=
    Run.of_calls _ _ _ (by decide +kernel)
  have hr : played.2.catalog.registration (TableFile.idOf ["t"]) = .ok r := by decide +kernel
  have hreach : Reaches .permissive (Database.ofTable Database.numbers 9 1) deleted.2 :=
    (Reaches.of_run hrun).deleteRow (Database.small_of_entries (by decide +kernel)) hr rfl
  have hr' : deleted.2.catalog.registration (TableFile.idOf ["t"]) = .ok r := by decide +kernel
  have hcount : r.file.pageCount deleted.2.volume = 2 := by decide +kernel
  have hplace : (((Database.insertRow .permissive r.file ⟨2⟩ (Database.number 8).val).run
      deleted.2).1.toOption.bind fun change => change.row.place) =
      some ⟨⟨TableFile.idOf ["t"], 0⟩, 0⟩ := by decide +kernel
  generalize deleted.2 = db at hreach hr' hcount hplace
  obtain ⟨-, hstored⟩ := hreach.insertion_takes_first_room hfresh hr' (by rw [hcount]; decide) ⟨2⟩
    (Database.number 8)
  rcases hinsert : (Database.insertRow .permissive r.file ⟨2⟩ (Database.number 8).val).run db with
    ⟨_ | change, db'⟩
  · rw [hinsert] at hplace
    cases hplace
  · rw [hinsert] at hplace
    exact ⟨db, db', r, change, hreach, hr', hcount, hinsert, hplace, hstored change db' hinsert⟩

end RowStore
