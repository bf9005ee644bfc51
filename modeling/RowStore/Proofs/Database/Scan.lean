import RowStore.Cursor
import RowStore.Proofs.Database.Rows

/-!
# Scanning a table

A scan goes through its pages in one sweep; it yields what a new cursor yields that is asked for row
after row. It changes nothing that is shown. If no fetch fails, it yields the rows that the table
shows, each once, in the order of their places.
-/

namespace RowStore

/-- The order of places in one table. -/
def RowId.Before (a b : RowId) : Prop :=
  a.page.number < b.page.number ∨ a.page.number = b.page.number ∧ a.slot < b.slot

/-- Both rows know their places, and the first one comes before the second. -/
def Row.Precedes (r s : Row) : Prop :=
  ∃ a b, r.place = some a ∧ s.place = some b ∧ a.Before b

/-! ## Row after row -/

namespace Cursor

variable {σ : Type} {locking : LockManager σ} {c : Cursor} {db db' : Database σ}

/-- A cursor is asked for row after row, up to the end of the rows or the first failure: what it
yields, and what that leads to. -/
inductive Drains (locking : LockManager σ) :
    Cursor × Database σ → Yield → Cursor × Database σ → Prop
  | ended {s t : Cursor × Database σ} : (next? locking).run s = (.ok none, t) →
      Drains locking s ⟨[], none⟩ t
  | failed {s t : Cursor × Database σ} {e : StorageError} :
      (next? locking).run s = (.error e, t) → Drains locking s ⟨[], some e⟩ t
  | row {s t u : Cursor × Database σ} {row : Row} {yielded : Yield} :
      (next? locking).run s = (.ok (some row), t) → Drains locking t yielded u →
      Drains locking s ⟨row :: yielded.rows, yielded.failure⟩ u

theorem hasNext_of_closed (hclosed : c.closed = true) :
    (hasNext locking).run (c, db) = (.ok false, c, db) := by
  simp [hasNext, Action.run_bind, hclosed]

theorem hasNext_of_open (hopen : c.closed = false) :
    (hasNext locking).run (c, db) = (advance locking (c.pagesLeft db.volume)).run (c, db) := by
  simp [hasNext, Action.run_bind, hopen]

/-- A cursor with a row in its buffer fetches nothing. -/
theorem hasNext_of_buffered {first : Row} {rest : List Row} (hopen : c.closed = false)
    (hbuffered : c.buffered = first :: rest) :
    (hasNext locking).run (c, db) = (.ok true, c, db) := by
  rw [hasNext_of_open hopen]
  cases c.pagesLeft db.volume <;> simp [advance, Action.run_bind, hbuffered]

theorem next?_of_buffered {first : Row} {rest : List Row} (hopen : c.closed = false)
    (hbuffered : c.buffered = first :: rest) :
    (next? locking).run (c, db) = (.ok (some first), { c with buffered := rest }, db) := by
  have hhas : (hasNext locking).run (c, db) = (.ok true, c, db) :=
    hasNext_of_buffered hopen hbuffered
  simp [next?, nextRow, hhas, Action.run_map, Action.run_bind, takeBuffered, hbuffered, Except.map]

/-- The next row is looked for by asking whether there is one. -/
theorem next?_congr {s t : Cursor × Database σ}
    (h : (hasNext locking).run s = (hasNext locking).run t) :
    (next? locking).run s = (next? locking).run t := by
  simp only [next?, h]

theorem Drains.of_hasNext {s t u : Cursor × Database σ} {yielded : Yield}
    (h : Drains locking t yielded u) (hsame : (hasNext locking).run s = (hasNext locking).run t) :
    Drains locking s yielded u := by
  have hnext := next?_congr hsame
  cases h with
  | ended hrun => exact .ended (hnext.trans hrun)
  | failed hrun => exact .failed (hnext.trans hrun)
  | row hrun hrest => exact .row (hnext.trans hrun) hrest

/-- The rows in the buffer come first. -/
theorem Drains.of_buffered {rows : List Row} {yielded : Yield} {u : Cursor × Database σ}
    (hopen : c.closed = false) (hbuffered : c.buffered = rows)
    (h : Drains locking ({ c with buffered := [] }, db) yielded u) :
    Drains locking (c, db) ⟨rows ++ yielded.rows, yielded.failure⟩ u := by
  induction rows generalizing c with
  | nil =>
    have hsame : { c with buffered := [] } = c := by rw [← hbuffered]
    rwa [hsame] at h
  | cons first rest ih =>
    have hrest := ih (c := { c with buffered := rest }) hopen rfl h
    exact .row (next?_of_buffered hopen hbuffered) hrest

theorem volume_of_pageRows {file : TableFile} {txn : TxnId} {n : Nat}
    {answer : Except StorageError (List Row)}
    (h : (pageRows locking file txn n).run db = (answer, db')) : db'.volume = db.volume := by
  rcases hfetch : (Database.fetch locking txn (file.pageAt n) .readOnly []).run db with
    ⟨e | frame, mid⟩
  all_goals
    rw [pageRows, Action.run_bind, hfetch] at h
    obtain ⟨-, rfl⟩ := Prod.mk.inj h
    exact (Database.catalog_of_fetch hfetch).2

/-- A cursor with nothing in its buffer turns the next page and is asked again. -/
theorem hasNext_turn {count : Nat} (hopen : c.closed = false) (hempty : c.buffered = [])
    (hcount : c.file.pageCount db.volume - c.nextPage = count + 1) :
    (hasNext locking).run (c, db) =
      match (pageRows locking c.file c.txn c.nextPage).run db with
      | (.ok rows, mid) =>
        (hasNext locking).run ({ c with nextPage := c.nextPage + 1, buffered := rows }, mid)
      | (.error e, mid) => (.error e, c, mid) := by
  rw [hasNext_of_open hopen, pagesLeft, hcount, List.range'_succ]
  simp only [advance, Action.run_bind, Action.run_ask, hempty, List.isEmpty_nil, if_true, turn]
  rcases hpage : (pageRows locking c.file c.txn c.nextPage).run db with ⟨e | rows, mid⟩
  · rfl
  · let turned : Cursor := { c with nextPage := c.nextPage + 1, buffered := rows }
    have hleft : turned.file.pageCount mid.volume - turned.nextPage = count := by
      show c.file.pageCount mid.volume - (c.nextPage + 1) = count
      rw [volume_of_pageRows hpage]
      omega
    have hnext : (hasNext locking).run (turned, mid) = _ := hasNext_of_open hopen
    rw [pagesLeft, hleft] at hnext
    exact hnext.symm

/-- The pages are swept one after another, as a cursor turns them that has nothing in its buffer. -/
theorem drains_pages {count : Nat} (hopen : c.closed = false) (hempty : c.buffered = [])
    (hcount : c.file.pageCount db.volume - c.nextPage = count) :
    ∃ c', Drains locking (c, db)
      (drainPages locking c.file c.txn (List.range' c.nextPage count) db).1
      (c', (drainPages locking c.file c.txn (List.range' c.nextPage count) db).2) := by
  induction count generalizing c db with
  | zero =>
    have hnone : (hasNext locking).run (c, db) = (.ok false, c, db) := by
      rw [hasNext_of_open hopen, pagesLeft, hcount]
      simp [advance, hempty]
    refine ⟨c, .ended ?_⟩
    simp only [next?, hnone, drainPages, List.range'_zero]
  | succ count ih =>
    have hhas : (hasNext locking).run (c, db) = _ := hasNext_turn hopen hempty hcount
    rw [List.range'_succ, drainPages]
    rcases hpage : (pageRows locking c.file c.txn c.nextPage).run db with ⟨e | rows, mid⟩
    · rw [hpage] at hhas
      refine ⟨c.close, .failed ?_⟩
      simp only [next?, hhas]
    · rw [hpage] at hhas
      have hleft : c.file.pageCount mid.volume - (c.nextPage + 1) = count := by
        rw [volume_of_pageRows hpage]
        omega
      obtain ⟨c', hrest⟩ :=
        ih (c := { c with nextPage := c.nextPage + 1, buffered := [] }) hopen rfl hleft
      have hrows : Drains locking ({ c with nextPage := c.nextPage + 1, buffered := rows }, mid)
          _ _ := hrest.of_buffered hopen rfl
      exact ⟨c', hrows.of_hasNext hhas⟩

/-- What a cursor has still to yield is what it yields if it is asked for row after row. -/
theorem drains (locking : LockManager σ) (c : Cursor) (db : Database σ) :
    ∃ c', Drains locking (c, db) (c.drain locking db).1 (c', (c.drain locking db).2) := by
  cases hclosed : c.closed with
  | true =>
    refine ⟨c, ?_⟩
    rw [drain, if_pos hclosed]
    refine .ended ?_
    simp only [next?, hasNext_of_closed hclosed]
  | false =>
    have hpages : ∃ c', Drains locking ({ c with buffered := [] }, db) _ (c', _) :=
      drains_pages hclosed rfl rfl
    obtain ⟨c', hpages⟩ := hpages
    refine ⟨c', ?_⟩
    rw [drain, if_neg (by simp [hclosed])]
    exact hpages.of_buffered hclosed rfl

end Cursor

/-! ## What is yielded -/

namespace Page

variable {p : Page}

theorem Sound.pairwise_rows (h : p.Sound) : p.rows.Pairwise Row.Precedes := by
  rw [rows, List.pairwise_filterMap, List.pairwise_iff_getElem]
  intro i j hi hj hij r hr s hs
  have hr : p.row? i = some r := row?_eq_some.2 (hr ▸ List.getElem?_eq_getElem hi)
  have hs : p.row? j = some s := row?_eq_some.2 (hs ▸ List.getElem?_eq_getElem hj)
  exact ⟨_, _, (h.housed i r hr).place_eq, (h.housed j s hs).place_eq, .inr ⟨rfl, hij⟩⟩

end Page

namespace View

/-- The rows are those that the pages at the given positions of a file show, in the order of their
places. -/
structure Listed (v : View) (file : TableFile) (ns : List Nat) (rows : List Row) : Prop where
  ordered : rows.Pairwise Row.Precedes
  shown : ∀ row ∈ rows, ∃ n ∈ ns, ∃ slot, row.place = some ⟨file.pageAt n, slot⟩ ∧
    v.row? ⟨file.pageAt n, slot⟩ = some row.values
  complete : ∀ n ∈ ns, ∀ (slot : Nat) (values : List Value),
    v.row? ⟨file.pageAt n, slot⟩ = some values →
    ∃ row ∈ rows, row.place = some ⟨file.pageAt n, slot⟩ ∧ row.values = values

variable {v : View} {file : TableFile} {ns : List Nat} {rows : List Row} {n : Nat} {p : Page}

theorem number_pageAt (h : n < 0x100000000) : (file.pageAt n).number.toNat = n := by
  simp only [TableFile.pageAt, UInt32.toNat_ofNat']
  exact Nat.mod_eq_of_lt h

theorem Listed.cons (hl : v.Listed file ns rows) (hns : ∀ m ∈ ns, n < m ∧ m < 0x100000000)
    (hp : p.Sound) (hid : p.id = file.pageAt n)
    (hcells : v.cells? (file.pageAt n) = some p.cells) :
    v.Listed file (n :: ns) (p.rows ++ rows) := by
  have hrow (slot : Nat) : v.row? ⟨file.pageAt n, slot⟩ = (p.row? slot).map Row.values := by
    rw [row?, hcells, Option.bind_some, Page.at?_cells]
  have hplace {slot : Nat} {r : Row} (hr : p.row? slot = some r) :
      r.place = some ⟨file.pageAt n, slot⟩ := hid ▸ (hp.housed slot r hr).place_eq
  refine ⟨List.pairwise_append.2 ⟨hp.pairwise_rows, hl.ordered, ?_⟩, ?_, ?_⟩
  · intro r hr s hs
    obtain ⟨slot, hr⟩ := Page.mem_rows.1 hr
    obtain ⟨m, hm, slot', hs, -⟩ := hl.shown s hs
    obtain ⟨hlt, hm⟩ := hns m hm
    refine ⟨_, _, hplace hr, hs, .inl (UInt32.lt_iff_toNat_lt.2 ?_)⟩
    rwa [number_pageAt hm, number_pageAt (by omega)]
  · intro row hrow'
    rcases List.mem_append.1 hrow' with hr | hr
    · obtain ⟨slot, hr⟩ := Page.mem_rows.1 hr
      exact ⟨n, by simp, slot, hplace hr, by rw [hrow, hr]; rfl⟩
    · obtain ⟨m, hm, slot, hs⟩ := hl.shown row hr
      exact ⟨m, by simp [hm], slot, hs⟩
  · intro m hm slot values hv
    rcases List.mem_cons.1 hm with rfl | hm
    · rw [hrow] at hv
      obtain ⟨r, hr, rfl⟩ := Option.map_eq_some_iff.1 hv
      exact ⟨r, List.mem_append_left _ (Page.mem_rows.2 ⟨slot, hr⟩), hplace hr, rfl⟩
    · obtain ⟨row, hrow', hs⟩ := hl.complete m hm slot values hv
      exact ⟨row, List.mem_append_right _ hrow', hs⟩

end View

namespace Database

variable {σ : Type} {locking : LockManager σ} {txn : TxnId} {r : Registration}
  {db db' : Database σ}

theorem Coherent.drainPages {ns : List Nat} {yielded : Cursor.Yield} (h : db.Coherent)
    (hr : db.catalog.registration r.file.id = .ok r) (hns : ns.Pairwise (· < ·))
    (hsmall : ∀ n ∈ ns, n < 0x100000000)
    (hrun : Cursor.drainPages locking r.file txn ns db = (yielded, db')) :
    Quiet db db' ∧ (yielded.failure = none → db.view.Listed r.file ns yielded.rows) := by
  induction ns generalizing db db' yielded with
  | nil =>
    obtain ⟨rfl, rfl⟩ := Prod.mk.inj hrun
    exact ⟨.refl h, fun _ => ⟨.nil, by simp, by simp⟩⟩
  | cons n ns ih =>
    rcases hfetch : (Database.fetch locking txn (r.file.pageAt n) .readOnly []).run db with
      ⟨fetched, mid⟩
    simp only [Cursor.drainPages, Cursor.pageRows, Action.run_bind, hfetch] at hrun
    obtain ⟨hlt, hns⟩ := List.pairwise_cons.1 hns
    obtain ⟨hn, hsmall⟩ := List.forall_mem_cons.1 hsmall
    rcases h.fetch hfetch with ⟨e, rfl, hmid⟩ | ⟨frame, rfl, hf⟩
    · obtain ⟨rfl, rfl⟩ := Prod.mk.inj hrun
      exact ⟨.of_failed h hmid, by simp⟩
    · have hquiet := Quiet.of_fetched hf
      obtain ⟨hb, hid⟩ := hf.belongs hr
      rcases hrest : Cursor.drainPages locking r.file txn ns mid with ⟨rest, last⟩
      obtain ⟨hq, hlisted⟩ := ih hf.coherent (hf.catalog_eq ▸ hr) hns hsmall hrest
      simp only [Action.run_pure, hrest, Prod.mk.injEq] at hrun
      obtain ⟨rfl, rfl⟩ := hrun
      refine ⟨hquiet.trans hq, ?_⟩
      intro hfail
      have hl := hlisted hfail
      rw [hquiet.view_eq] at hl
      exact hl.cons (fun m hm => ⟨hlt m hm, hsmall m hm⟩) hb.sound hid hf.shows

/-- The rows of a table, told by what the database shows. -/
structure Lists (db : Database σ) (table : TableId) (rows : List Row) : Prop where
  ordered : rows.Pairwise Row.Precedes
  shown : ∀ row ∈ rows, ∃ spot, row.place = some spot ∧ spot.page.table = table ∧
    db.contents spot = some row.values
  complete : ∀ (spot : RowId) (values : List Value), spot.page.table = table →
    db.contents spot = some values → ∃ row ∈ rows, row.place = some spot ∧ row.values = values

theorem Coherent.scan {yielded : Cursor.Yield} (h : db.Coherent) (hsmall : db.Small)
    (hr : db.catalog.registration r.file.id = .ok r)
    (hrun : Database.scan locking r.file txn db = (yielded, db')) :
    Quiet db db' ∧ (yielded.failure = none → db.Lists r.file.id yielded.rows) := by
  have hcount := hsmall _ r hr
  rcases hdrain : Cursor.drainPages locking r.file txn
    (List.range' 0 (r.file.pageCount db.volume)) db with ⟨rest, last⟩
  simp only [Database.scan, Cursor.drain, Cursor.new, Cursor.pagesLeft, Bool.false_eq_true,
    if_false, Nat.sub_zero, hdrain, List.nil_append, Prod.mk.injEq] at hrun
  obtain ⟨rfl, rfl⟩ := hrun
  obtain ⟨hq, hlisted⟩ := h.drainPages hr List.pairwise_lt_range'
    (fun n hn => by have := List.mem_range'_1.1 hn; omega) hdrain
  refine ⟨hq, ?_⟩
  intro hfail
  have hl := hlisted hfail
  refine ⟨hl.ordered, ?_, ?_⟩
  · intro row hrow
    obtain ⟨n, -, slot, hplace, hv⟩ := hl.shown row hrow
    exact ⟨_, hplace, rfl, hv⟩
  · rintro ⟨⟨table, number⟩, slot⟩ values ht hv
    obtain rfl : table = r.file.id := ht
    obtain ⟨cells, hcells, -⟩ := Option.bind_eq_some_iff.1 hv
    have hpage : r.file.pageAt number.toNat = ⟨r.file.id, number⟩ := by simp [TableFile.pageAt]
    obtain ⟨s, hs, hlt⟩ := h.number_lt hcells
    obtain rfl : r = s := Except.ok.inj (hr.symm.trans hs)
    have hmem : number.toNat ∈ List.range' 0 (r.file.pageCount db.volume) :=
      List.mem_range'_1.2 ⟨by omega, by simpa using hlt⟩
    rw [← hpage] at hv ⊢
    exact hl.complete number.toNat hmem slot values hv

end Database

end RowStore
