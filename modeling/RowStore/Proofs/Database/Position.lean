import RowStore.Proofs.Database.Contents
import RowStore.Proofs.Database.Refusal
import RowStore.Proofs.Database.TableRows

/-!
# A cursor as a position

A cursor stands somewhere in the list of the rows of its table or is closed, whatever pages it has
read and whichever of their rows it has buffered, and every use of it comes to what is said of the
position. What the cursor has still ahead of it, in its buffer and on the pages that it has not
read, is the list from there on.
-/

namespace RowStore

namespace Cursor

variable {σ : Type} {locking : LockManager σ} {r : Registration} {c c' : Cursor}
  {db db' : Database σ}

/-! ## Uses of a cursor -/

/-- What a cursor can be used for. -/
inductive Use where
  | reopen
  | rewind
  | close
  | hasNext
  | nextRow
  | next?
  deriving DecidableEq

/-- What comes back, with the rows told in some form. -/
inductive Response (ρ : Type) where
  | done
  | more (answer : Bool)
  | row (row : ρ)
  | item (row? : Option ρ)
  deriving DecidableEq

def Response.map {ρ τ : Type} (f : ρ → τ) : Response ρ → Response τ
  | .done => .done
  | .more answer => .more answer
  | .row r => .row (f r)
  | .item r? => .item (r?.map f)

def Use.perform (locking : LockManager σ) : Use → Action (Cursor × Database σ) (Response Row)
  | .reopen => (fun _ => .done) <$> .update fun s => (s.1.reopen, s.2)
  | .rewind => (fun _ => .done) <$> .update fun s => (s.1.rewind, s.2)
  | .close => (fun _ => .done) <$> .update fun s => (s.1.close, s.2)
  | .hasNext => .more <$> Cursor.hasNext locking
  | .nextRow => .row <$> Cursor.nextRow locking
  | .next? => .item <$> Cursor.next? locking

/-- The failure met by fetching one page after another up to the first one with rows. -/
def search (locking : LockManager σ) (file : TableFile) (txn : TxnId) :
    List Nat → Database σ → Option StorageError
  | [], _ => none
  | n :: ns, db =>
    match (Database.fetch locking txn (file.pageAt n) .readOnly []).run db with
    | (.error e, _) => some e
    | (.ok frame, db) => if frame.page.rows = [] then search locking file txn ns db else none

/-- The failure that keeps a cursor from telling its next row, if it has to fetch pages for that and
one of them cannot be fetched. -/
def obstacle? (locking : LockManager σ) (c : Cursor) (db : Database σ) : Option StorageError :=
  if c.closed = false ∧ c.buffered = [] then
    search locking c.file c.txn (c.pagesLeft db.volume) db
  else none

/-- Where a cursor stands: in front of the row of that number, or nowhere. -/
inductive Mark where
  | row (number : Nat)
  | closed
  deriving DecidableEq

/-- What a use comes to in a list of rows. -/
def Mark.use {ρ : Type} (rows : List ρ) (failure? : Option StorageError) :
    Mark → Use → Except StorageError (Response ρ) × Mark
  | _, .reopen | _, .rewind => (.ok .done, .row 0)
  | _, .close => (.ok .done, .closed)
  | .closed, .hasNext => (.ok (.more false), .closed)
  | .closed, .nextRow => (.error .endOfRows, .closed)
  | .closed, .next? => (.ok (.item none), .closed)
  | .row k, .hasNext =>
    match failure? with
    | some e => (.error e, .row k)
    | none => (.ok (.more (k < rows.length)), .row k)
  | .row k, .nextRow =>
    match failure?, rows[k]? with
    | some e, _ => (.error e, .row k)
    | none, some r => (.ok (.row r), .row (k + 1))
    | none, none => (.error .endOfRows, .row k)
  | .row k, .next? =>
    match failure?, rows[k]? with
    | some e, _ => (.error e, .closed)
    | none, some r => (.ok (.item (some r)), .row (k + 1))
    | none, none => (.ok (.item none), .row k)

/-! ## Looking for the next row -/

/-- The rows of a list that a cursor has still ahead of it, in its buffer or on pages that it has
not read. -/
def ahead (c : Cursor) (rows : List Row.Facts) : List Row.Facts :=
  c.buffered.map Row.facts ++ Row.Facts.fromPage rows c.nextPage

/-- A cursor looked for a row on the pages that follow. It has the same rows ahead of it, with the
first one of them in its buffer if there is one and no page failed. -/
structure Looked (c : Cursor) (db : Database σ) (count : Nat) (failure? : Option StorageError)
    (answer : Except StorageError Bool) (c' : Cursor) (db' : Database σ) : Prop where
  quiet : db.Quiet db'
  cursor_eq : c' = { c with nextPage := c'.nextPage, buffered := c'.buffered }
  le_nextPage : c.nextPage ≤ c'.nextPage
  nextPage_le : c'.nextPage ≤ c.nextPage + count
  rows_eq : c'.buffered.map Row.facts ++
      (List.range' c'.nextPage (c.nextPage + count - c'.nextPage)).flatMap
        (db.view.pageRows c.file) =
    c.buffered.map Row.facts ++ (List.range' c.nextPage count).flatMap (db.view.pageRows c.file)
  answer_eq : answer = match failure? with
    | some e => .error e
    | none => .ok !c'.buffered.isEmpty
  nextPage_eq : failure? = none → c'.buffered = [] → c'.nextPage = c.nextPage + count

/-- A cursor that stays where it is. -/
theorem Looked.stay {count : Nat} {failure? : Option StorageError}
    {answer : Except StorageError Bool} (h : db.Quiet db')
    (hanswer : answer = match failure? with
      | some e => .error e
      | none => .ok !c.buffered.isEmpty)
    (hend : failure? = none → c.buffered = [] → count = 0) :
    Looked c db count failure? answer c db' where
  quiet := h
  cursor_eq := rfl
  le_nextPage := Nat.le_refl _
  nextPage_le := Nat.le_add_right _ _
  rows_eq := by rw [Nat.add_sub_cancel_left]
  answer_eq := hanswer
  nextPage_eq hnone hempty := by rw [hend hnone hempty, Nat.add_zero]

/-- A cursor looks for a row from page to page. -/
theorem looked {answer : Except StorageError Bool} (h : db.Coherent)
    (hr : db.catalog.registration c.file.id = .ok r) (hfile : c.file = r.file) (count : Nat)
    (hrun : (advance locking (List.range' c.nextPage count)).run (c, db) = (answer, c', db')) :
    Looked c db count
      (if c.buffered = [] then
        search locking c.file c.txn (List.range' c.nextPage count) db else none) answer c' db' := by
  induction count generalizing c db with
  | zero =>
    obtain ⟨rfl, hstate⟩ := Prod.mk.inj hrun
    obtain ⟨rfl, rfl⟩ := Prod.mk.inj hstate
    refine .stay (.refl h) ?_ fun _ _ => rfl
    simp [search]
  | succ count ih =>
    rw [List.range'_succ, advance, Action.run_bind, Action.run_ask] at hrun
    dsimp only at hrun
    cases hbuffered : c.buffered with
    | cons first rest =>
      simp only [hbuffered, List.isEmpty_cons, Bool.false_eq_true, if_false,
        Action.run_pure] at hrun
      obtain ⟨rfl, hstate⟩ := Prod.mk.inj hrun
      obtain ⟨rfl, rfl⟩ := Prod.mk.inj hstate
      refine .stay (.refl h) ?_ ?_
      · simp [hbuffered]
      · simp [hbuffered]
    | nil =>
      simp only [hbuffered, List.isEmpty_nil, if_true, Action.run_bind] at hrun
      rw [if_pos rfl, List.range'_succ, search]
      rcases hfetch : (Database.fetch locking c.txn (c.file.pageAt c.nextPage) .readOnly []).run db
        with ⟨fetched, mid⟩
      simp only [Cursor.turn, pageRows, Action.run_bind, hfetch] at hrun
      rcases h.fetch hfetch with ⟨e, rfl, hmid⟩ | ⟨frame, rfl, hf⟩
      · obtain ⟨rfl, hstate⟩ := Prod.mk.inj hrun
        obtain ⟨rfl, rfl⟩ := Prod.mk.inj hstate
        exact .stay (.of_failed h hmid) rfl (by simp)
      · simp only [Action.run_pure] at hrun
        have hquiet := Database.Quiet.of_fetched hf
        obtain ⟨hb, hid⟩ := hf.belongs hr
        have hrest := ih (c := { c with nextPage := c.nextPage + 1, buffered := frame.page.rows })
          hf.coherent (hf.catalog_eq ▸ hr) hfile hrun
        obtain ⟨hq, hcursor, hge, hle, hrows, hanswer, hend⟩ := hrest
        have hpage : db.view.pageRows c.file c.nextPage = frame.page.rows.map Row.facts := by
          rw [hfile]
          exact View.pageRows_eq hb (hfile ▸ hid) (hfile ▸ hf.shows)
        have hsum : c.nextPage + (count + 1) = c.nextPage + 1 + count := by omega
        refine ⟨hquiet.trans hq, hcursor, Nat.le_of_succ_le hge, hsum ▸ hle, ?_, hanswer,
          hsum ▸ hend⟩
        rw [hbuffered, List.range'_succ, List.flatMap_cons, hpage, List.map_nil, List.nil_append,
          ← hquiet.view_eq, hsum]
        exact hrows

/-- What asking an open cursor for another row comes to. -/
structure Asked (locking : LockManager σ) (rows : List Row.Facts) (c : Cursor) (db : Database σ)
    (answer : Except StorageError Bool) (c' : Cursor) (db' : Database σ) : Prop where
  quiet : db.Quiet db'
  cursor_eq : c' = { c with nextPage := c'.nextPage, buffered := c'.buffered }
  ahead_eq : c'.ahead rows = c.ahead rows
  answer_eq : answer = match c.obstacle? locking db with
    | some e => .error e
    | none => .ok !(c.ahead rows).isEmpty
  buffered : answer = .ok true → ∃ first rest, c'.buffered = first :: rest

theorem asked {answer : Except StorageError Bool} (h : db.Coherent)
    (hsmall : db.Small) (hr : db.catalog.registration r.file.id = .ok r) (hfile : c.file = r.file)
    (hopen : c.closed = false) (hrun : (hasNext locking).run (c, db) = (answer, c', db')) :
    Asked locking (db.tableRows r.file) c db answer c' db' := by
  have hcount := hsmall _ r hr
  rw [hasNext, Action.run_bind, Action.run_ask] at hrun
  simp only [hopen, Bool.false_eq_true, if_false, Action.run_bind, Action.run_ask,
    pagesLeft] at hrun
  have hlooked := looked h (hfile ▸ hr) hfile _ hrun
  obtain ⟨hq, hcursor, hge, hle, hrows, hanswer, hend⟩ := hlooked
  have hfailure : (if c.buffered = [] then
      search locking c.file c.txn (List.range' c.nextPage (c.file.pageCount db.volume - c.nextPage))
        db else none) = c.obstacle? locking db := by
    simp only [obstacle?, hopen, true_and, pagesLeft]
  have hahead : c'.ahead (db.tableRows r.file) = c.ahead (db.tableRows r.file) := by
    rw [ahead, ahead, Database.fromPage_tableRows (Nat.le_of_lt hcount),
      Database.fromPage_tableRows (Nat.le_of_lt hcount), ← hfile, ← hrows]
    congr 3
    omega
  rw [hfailure] at hanswer hend
  refine ⟨hq, hcursor, hahead, ?_, ?_⟩
  · rw [hanswer, ← hahead]
    cases hobstacle : c.obstacle? locking db with
    | some e => rfl
    | none =>
      cases hbuffered : c'.buffered with
      | cons first rest => simp [ahead, hbuffered]
      | nil =>
        have hnone : c.file.pageCount db.volume - c'.nextPage = 0 := by
          rw [hend hobstacle hbuffered]
          omega
        have hrest : c'.ahead (db.tableRows r.file) = [] := by
          rw [ahead, hbuffered, Database.fromPage_tableRows (Nat.le_of_lt hcount), ← hfile, hnone]
          rfl
        rw [hrest]
        rfl
  · intro htrue
    rw [hanswer] at htrue
    split at htrue
    · cases htrue
    · cases hbuffered : c'.buffered with
      | cons first rest => exact ⟨first, rest, rfl⟩
      | nil => simp [hbuffered] at htrue

/-! ## One use -/

/-- A cursor stands where the mark says. -/
def Mark.Fits (rows : List Row.Facts) (c : Cursor) : Mark → Prop
  | .row k => c.closed = false ∧ c.ahead rows = rows.drop k
  | .closed => c.closed = true

variable {rows : List Row.Facts} {k : Nat}

/-- What asking comes to by the position: a page failed, or there are no more rows, or the next one
is in the buffer. -/
inductive Finds (locking : LockManager σ) (rows : List Row.Facts) (k : Nat) (c : Cursor)
    (db : Database σ) (c' : Cursor) : Except StorageError Bool → Prop
  | failure {e : StorageError} : c.obstacle? locking db = some e →
      Finds locking rows k c db c' (.error e)
  | nothing : c.obstacle? locking db = none → rows[k]? = none →
      Finds locking rows k c db c' (.ok false)
  | row {first : Row} {rest : List Row} : c.obstacle? locking db = none →
      c'.buffered = first :: rest → rows[k]? = some first.facts →
      Mark.Fits rows { c' with buffered := rest } (.row (k + 1)) →
      Finds locking rows k c db c' (.ok true)

theorem Asked.finds {answer : Except StorageError Bool}
    (h : Asked locking rows c db answer c' db') (hfits : Mark.Fits rows c (.row k)) :
    Mark.Fits rows c' (.row k) ∧ Finds locking rows k c db c' answer := by
  obtain ⟨hopen, hahead⟩ := hfits
  have hopen' : c'.closed = false := by rw [h.cursor_eq, hopen]
  have hahead' : c'.ahead rows = rows.drop k := h.ahead_eq.trans hahead
  refine ⟨⟨hopen', hahead'⟩, ?_⟩
  have hanswer := h.answer_eq
  rw [hahead] at hanswer
  cases hobstacle : c.obstacle? locking db with
  | some e =>
    rw [hobstacle] at hanswer
    exact hanswer ▸ .failure hobstacle
  | none =>
    rw [hobstacle] at hanswer
    by_cases hend : rows.drop k = []
    · rw [hend] at hanswer
      exact hanswer ▸ .nothing hobstacle (List.getElem?_eq_none (List.drop_eq_nil_iff.1 hend))
    · have htrue : answer = .ok true := hanswer.trans (by simpa using hend)
      obtain ⟨first, rest, hbuffered⟩ := h.buffered htrue
      have hdrop : rows.drop k = first.facts :: Cursor.ahead { c' with buffered := rest } rows := by
        rw [← hahead', ahead, hbuffered]
        rfl
      refine htrue ▸ .row hobstacle hbuffered ?_ ⟨hopen', ?_⟩
      · rw [← List.head?_drop, hdrop, List.head?_cons]
      · rw [← List.tail_drop, hdrop, List.tail_cons]

/-- A use of a cursor comes to what is said of its position. -/
structure Keeps (locking : LockManager σ) (rows : List Row.Facts) (m : Mark) (use : Use)
    (c : Cursor) (db : Database σ) (answer : Except StorageError (Response Row)) (c' : Cursor)
    (db' : Database σ) : Prop where
  quiet : db.Quiet db'
  file_eq : c'.file = c.file
  txn_eq : c'.txn = c.txn
  answer_eq : answer.map (Response.map Row.facts) =
    (m.use rows (c.obstacle? locking db) use).1
  fits : (m.use rows (c.obstacle? locking db) use).2.Fits rows c'

section

variable {m : Mark} (hc : db.Coherent) (hsmall : db.Small)
  (hr : db.catalog.registration r.file.id = .ok r) (hrows : db.tableRows r.file = rows)

include hc hsmall hr hrows

omit hc in
/-- A cursor that is opened is at the start, wherever it was. -/
theorem fits_reopen (c : Cursor) : Mark.Fits rows c.reopen (.row 0) := by
  have hall := Database.fromPage_tableRows (Nat.le_of_lt (hsmall _ r hr)) 0
  rw [Nat.sub_zero, ← List.range_eq_range'] at hall
  refine ⟨rfl, ?_⟩
  rw [List.drop_zero, ← hrows]
  exact hall

/-- An open cursor that is asked for a row stays where it is, with what it found. -/
theorem finds {answer : Except StorageError Bool} (hfile : c.file = r.file)
    (hfits : Mark.Fits rows c (.row k))
    (hrun : (hasNext locking).run (c, db) = (answer, c', db')) :
    db.Quiet db' ∧ c'.file = c.file ∧ c'.txn = c.txn ∧ Mark.Fits rows c' (.row k) ∧
      Finds locking rows k c db c' answer := by
  have hasked := asked hc hsmall hr hfile hfits.1 hrun
  rw [hrows] at hasked
  have hcursor := hasked.cursor_eq
  exact ⟨hasked.quiet, by rw [hcursor], by rw [hcursor], hasked.finds hfits⟩

/-- Asking does not move a cursor. -/
theorem keeps_hasNext {answer : Except StorageError Bool} (hfile : c.file = r.file)
    (hfits : m.Fits rows c) (hrun : (hasNext locking).run (c, db) = (answer, c', db')) :
    Keeps locking rows m .hasNext c db (answer.map .more) c' db' := by
  cases m with
  | closed =>
    obtain ⟨rfl, hstate⟩ := Prod.mk.inj ((hasNext_of_closed hfits).symm.trans hrun)
    obtain ⟨rfl, rfl⟩ := Prod.mk.inj hstate
    exact ⟨.refl hc, rfl, rfl, rfl, hfits⟩
  | row k =>
    obtain ⟨hquiet, hfile', htxn, hfits', hfinds⟩ := finds hc hsmall hr hrows hfile hfits hrun
    refine ⟨hquiet, hfile', htxn, ?_, ?_⟩
    · cases hfinds with
      | failure hobstacle => simp [Mark.use, hobstacle, Except.map]
      | nothing hobstacle hend =>
        have hlen : rows.length ≤ k := by simpa using hend
        simp [Mark.use, hobstacle, Except.map, Response.map, hlen]
      | row hobstacle _ hget _ =>
        have hlen : k < rows.length := (List.getElem?_eq_some_iff.1 hget).1
        simp [Mark.use, hobstacle, Except.map, Response.map, hlen]
    · cases hobstacle : c.obstacle? locking db <;> simpa [Mark.use, hobstacle] using hfits'

/-- A cursor that is asked for a row hands out the one at its position and moves past it. -/
theorem keeps_nextRow {answer : Except StorageError Row} (hfile : c.file = r.file)
    (hfits : m.Fits rows c) (hrun : (nextRow locking).run (c, db) = (answer, c', db')) :
    Keeps locking rows m .nextRow c db (answer.map .row) c' db' := by
  cases m with
  | closed =>
    rw [nextRow, Action.run_bind_of_ok (hasNext_of_closed hfits)] at hrun
    obtain ⟨rfl, hstate⟩ := Prod.mk.inj hrun
    obtain ⟨rfl, rfl⟩ := Prod.mk.inj hstate
    exact ⟨.refl hc, rfl, rfl, rfl, hfits⟩
  | row k =>
    rcases hhas : (hasNext locking).run (c, db) with ⟨more, mid, dbmid⟩
    obtain ⟨hquiet, hfile', htxn, hfits', hfinds⟩ := finds hc hsmall hr hrows hfile hfits hhas
    rw [nextRow, Action.run_bind, hhas] at hrun
    cases hfinds with
    | failure hobstacle =>
      obtain ⟨rfl, hstate⟩ := Prod.mk.inj hrun
      obtain ⟨rfl, rfl⟩ := Prod.mk.inj hstate
      exact ⟨hquiet, hfile', htxn, by simp [Mark.use, hobstacle, Except.map],
        by simpa [Mark.use, hobstacle] using hfits'⟩
    | nothing hobstacle hend =>
      obtain ⟨rfl, hstate⟩ := Prod.mk.inj hrun
      obtain ⟨rfl, rfl⟩ := Prod.mk.inj hstate
      exact ⟨hquiet, hfile', htxn, by simp [Mark.use, hobstacle, hend, Except.map],
        by simpa [Mark.use, hobstacle, hend] using hfits'⟩
    | row hobstacle hbuffered hget hnext =>
      simp only [if_true, takeBuffered, hbuffered] at hrun
      obtain ⟨rfl, hstate⟩ := Prod.mk.inj hrun
      obtain ⟨rfl, rfl⟩ := Prod.mk.inj hstate
      exact ⟨hquiet, hfile', htxn, by simp [Mark.use, hobstacle, hget, Except.map, Response.map],
        by simpa [Mark.use, hobstacle, hget] using hnext⟩

/-- The same as an iterator, which is closed by a failure. -/
theorem keeps_next? {answer : Except StorageError (Option Row)} (hfile : c.file = r.file)
    (hfits : m.Fits rows c) (hrun : (next? locking).run (c, db) = (answer, c', db')) :
    Keeps locking rows m .next? c db (answer.map .item) c' db' := by
  cases m with
  | closed =>
    simp only [next?, hasNext_of_closed hfits] at hrun
    obtain ⟨rfl, hstate⟩ := Prod.mk.inj hrun
    obtain ⟨rfl, rfl⟩ := Prod.mk.inj hstate
    exact ⟨.refl hc, rfl, rfl, rfl, hfits⟩
  | row k =>
    rcases hhas : (hasNext locking).run (c, db) with ⟨more, mid, dbmid⟩
    obtain ⟨hquiet, hfile', htxn, hfits', hfinds⟩ := finds hc hsmall hr hrows hfile hfits hhas
    simp only [next?, hhas] at hrun
    cases hfinds with
    | failure hobstacle =>
      obtain ⟨rfl, hstate⟩ := Prod.mk.inj hrun
      obtain ⟨rfl, rfl⟩ := Prod.mk.inj hstate
      exact ⟨hquiet, hfile', htxn, by simp [Mark.use, hobstacle, Except.map],
        by simp [Mark.use, hobstacle, Mark.Fits, close]⟩
    | nothing hobstacle hend =>
      obtain ⟨rfl, hstate⟩ := Prod.mk.inj hrun
      obtain ⟨rfl, rfl⟩ := Prod.mk.inj hstate
      exact ⟨hquiet, hfile', htxn, by simp [Mark.use, hobstacle, hend, Except.map, Response.map],
        by simpa [Mark.use, hobstacle, hend] using hfits'⟩
    | row hobstacle hbuffered hget hnext =>
      -- that there is a row is asked again, and no page is fetched for that
      dsimp only at hrun
      rw [Action.run_map, nextRow,
        Action.run_bind_of_ok (hasNext_of_buffered hfits'.1 hbuffered)] at hrun
      simp only [if_true, takeBuffered, hbuffered] at hrun
      obtain ⟨rfl, hstate⟩ := Prod.mk.inj hrun
      obtain ⟨rfl, rfl⟩ := Prod.mk.inj hstate
      exact ⟨hquiet, hfile', htxn, by simp [Mark.use, hobstacle, hget, Except.map, Response.map],
        by simpa [Mark.use, hobstacle, hget] using hnext⟩

/-- Every use comes to what is said of the position. -/
theorem Use.keeps (use : Use) {answer : Except StorageError (Response Row)}
    (hfile : c.file = r.file) (hfits : m.Fits rows c)
    (hrun : (use.perform locking).run (c, db) = (answer, c', db')) :
    Keeps locking rows m use c db answer c' db' := by
  cases use with
  | reopen | rewind =>
    obtain ⟨rfl, hstate⟩ := Prod.mk.inj hrun
    obtain ⟨rfl, rfl⟩ := Prod.mk.inj hstate
    cases m <;> exact ⟨.refl hc, rfl, rfl, rfl, fits_reopen hsmall hr hrows c⟩
  | close =>
    obtain ⟨rfl, hstate⟩ := Prod.mk.inj hrun
    obtain ⟨rfl, rfl⟩ := Prod.mk.inj hstate
    cases m <;> exact ⟨.refl hc, rfl, rfl, rfl, rfl⟩
  | hasNext =>
    obtain ⟨found, hasked, rfl⟩ := Action.run_map_eq hrun
    exact keeps_hasNext hc hsmall hr hrows hfile hfits hasked
  | nextRow =>
    obtain ⟨found, hasked, rfl⟩ := Action.run_map_eq hrun
    exact keeps_nextRow hc hsmall hr hrows hfile hfits hasked
  | next? =>
    obtain ⟨found, hasked, rfl⟩ := Action.run_map_eq hrun
    exact keeps_next? hc hsmall hr hrows hfile hfits hasked

end

/-- A search fails if a page that it comes to is refused. -/
theorem search_eq_some {txn : TxnId} {ns : List Nat} {e : StorageError} (h : db.Coherent)
    (hsearch : search locking c.file txn ns db = some e) :
    ∃ n ∈ ns, ∃ mid, db.Quiet mid ∧
      mid.Refused locking txn (c.file.pageAt n) .readOnly [] e := by
  induction ns generalizing db with
  | nil => cases hsearch
  | cons n ns ih =>
    rw [search] at hsearch
    rcases hfetch : (Database.fetch locking txn (c.file.pageAt n) .readOnly []).run db
      with ⟨fetched, mid⟩
    rw [hfetch] at hsearch
    rcases h.fetch hfetch with ⟨d, rfl, -⟩ | ⟨frame, rfl, hf⟩
    · obtain rfl := Option.some.inj hsearch
      exact ⟨n, List.mem_cons_self, db, .refl h,
        Database.fetch_eq_error_iff.1 (congrArg Prod.fst hfetch)⟩
    · have hquiet := Database.Quiet.of_fetched hf
      dsimp only at hsearch
      split at hsearch
      · obtain ⟨m, hm, last, hlast, hrefused⟩ := ih hf.coherent hsearch
        exact ⟨m, List.mem_cons_of_mem _ hm, last, hquiet.trans hlast, hrefused⟩
      · cases hsearch

theorem obstacle?_eq_some {e : StorageError} (h : db.Coherent)
    (hobstacle : c.obstacle? locking db = some e) :
    ∃ n, c.nextPage ≤ n ∧ n < c.file.pageCount db.volume ∧ ∃ mid, db.Quiet mid ∧
      mid.Refused locking c.txn (c.file.pageAt n) .readOnly [] e := by
  unfold obstacle? at hobstacle
  split at hobstacle
  · obtain ⟨n, hn, hrefused⟩ := search_eq_some h hobstacle
    have hn := List.mem_range'_1.1 hn
    exact ⟨n, hn.1, by omega, hrefused⟩
  · cases hobstacle

/-! ## Any number of uses -/

/-- A use of a cursor, with the cursor and the database before and after it. -/
structure Used (σ : Type) where
  before : Cursor × Database σ
  use : Use
  answer : Except StorageError (Response Row)
  after : Cursor × Database σ

namespace Used

def Taken (locking : LockManager σ) (u : Used σ) : Prop :=
  (u.use.perform locking).run u.before = (u.answer, u.after)

def obstacle? (locking : LockManager σ) (u : Used σ) : Option StorageError :=
  u.before.1.obstacle? locking u.before.2

/-- A use is answered as the mark says. If it fails for a page, that page was refused. -/
structure Answers (locking : LockManager σ) (file : TableFile) (txn : TxnId)
    (rows : List Row.Facts) (m : Mark) (u : Used σ) : Prop where
  answer_eq : u.answer.map (Response.map Row.facts) = (m.use rows (u.obstacle? locking) u.use).1
  refused : ∀ e, u.obstacle? locking = some e → ∃ n, n < file.pageCount u.before.2.volume ∧
    ∃ mid, u.before.2.Quiet mid ∧ mid.Refused locking txn (file.pageAt n) .readOnly [] e

end Used

/-- Uses of a cursor one after another, the last one first, and what they lead to. In between
anybody may call the database, as long as the rows that the table shows stay. Nothing is done where
a table has used up its page numbers. -/
inductive Usage (locking : LockManager σ) (file : TableFile) (start : Cursor × Database σ) :
    List (Used σ) → Cursor × Database σ → Prop
  | nil : Usage locking file start [] start
  | use {uses : List (Used σ)} {u : Used σ} : Usage locking file start uses u.before →
      u.before.2.Small → u.Taken locking → Usage locking file start (u :: uses) u.after
  | call {uses : List (Used σ)} {c : Cursor} {db db' : Database σ} {call : Call}
      {answer : Except StorageError Answer} : Usage locking file start uses (c, db) → db.Small →
      (Database.perform locking call).run db = (answer, db') →
      db'.tableRows file = db.tableRows file → Usage locking file start uses (c, db')

/-- Where a new cursor stands after some uses, the last one first. -/
def mark (locking : LockManager σ) (rows : List Row.Facts) : List (Used σ) → Mark
  | [] => .row 0
  | u :: uses => ((mark locking rows uses).use rows (u.obstacle? locking) u.use).2

namespace Usage

variable {file : TableFile} {start state : Cursor × Database σ} {uses : List (Used σ)}

/-- The uses before one of them. -/
theorem split {later earlier : List (Used σ)} {u : Used σ}
    (h : Usage locking file start uses state) (huses : uses = later ++ u :: earlier) :
    Usage locking file start earlier u.before ∧ u.before.2.Small ∧ u.Taken locking := by
  induction h generalizing later with
  | nil => simp at huses
  | use husage hsmall htaken ih =>
    cases later with
    | nil =>
      obtain ⟨rfl, rfl⟩ := List.cons.inj huses
      exact ⟨husage, hsmall, htaken⟩
    | cons last later => exact ih (List.cons.inj huses).2
  | call _ _ _ _ ih => exact ih huses

/-- What a cursor is kept to. -/
structure Kept (locking : LockManager σ) (r : Registration) (txn : TxnId)
    (rows : List Row.Facts) (uses : List (Used σ)) (state : Cursor × Database σ) : Prop where
  coherent : state.2.Coherent
  registered : state.2.catalog.registration r.file.id = .ok r
  rows_eq : state.2.tableRows r.file = rows
  file_eq : state.1.file = r.file
  txn_eq : state.1.txn = txn
  fits : (mark locking rows uses).Fits rows state.1

theorem kept {txn : TxnId} (h : Usage locking r.file (Cursor.new r.file txn, db) uses state)
    (hc : db.Coherent) (hsmall : db.Small) (hr : db.catalog.registration r.file.id = .ok r) :
    Kept locking r txn (db.tableRows r.file) uses state := by
  induction h with
  | nil => exact ⟨hc, hr, rfl, rfl, rfl, fits_reopen hsmall hr rfl (Cursor.new r.file txn)⟩
  | @use uses u husage hsmallu htaken ih =>
    have hkeeps := u.use.keeps ih.coherent hsmallu ih.registered ih.rows_eq ih.file_eq ih.fits
      htaken
    have hq := hkeeps.quiet
    refine ⟨hq.coherent, hq.catalog_eq ▸ ih.registered, ?_, hkeeps.file_eq.trans ih.file_eq,
      hkeeps.txn_eq.trans ih.txn_eq, hkeeps.fits⟩
    rw [Database.tableRows, hq.volume_eq, hq.view_eq]
    exact ih.rows_eq
  | @call uses c db db' call answer husage hsmall' hrun hsame ih =>
    obtain ⟨hcoherent, hcatalog⟩ := (ih.coherent.effect hsmall' hrun).coherent
    exact ⟨hcoherent, hcatalog ▸ ih.registered, hsame.trans ih.rows_eq, ih.file_eq, ih.txn_eq,
      ih.fits⟩

end Usage

/-- Use a cursor one time after another. The uses come the last one first, before the given ones. -/
def useAll (locking : LockManager σ) (uses : List (Used σ)) (state : Cursor × Database σ) :
    List Use → List (Used σ) × (Cursor × Database σ)
  | [] => (uses, state)
  | use :: rest =>
    let result := (use.perform locking).run state
    useAll locking (⟨state, use, result.1, result.2⟩ :: uses) result.2 rest

theorem mem_useAll {uses : List (Used σ)} {state : Cursor × Database σ} {u : Used σ}
    (rest : List Use) (h : u ∈ uses) : u ∈ (useAll locking uses state rest).1 := by
  induction rest generalizing uses state with
  | nil => exact h
  | cons use rest ih => exact ih (List.mem_cons_of_mem _ h)

theorem Usage.useAll {file : TableFile} {start state : Cursor × Database σ}
    {uses : List (Used σ)} (h : Usage locking file start uses state) (rest : List Use)
    (hsmall : ∀ u ∈ (Cursor.useAll locking uses state rest).1,
      ∀ e ∈ u.before.2.catalog.byId.entries,
        e.2.file.pageCount u.before.2.volume < 0x100000000) :
    Usage locking file start (Cursor.useAll locking uses state rest).1
      (Cursor.useAll locking uses state rest).2 := by
  induction rest generalizing uses state with
  | nil => exact h
  | cons use rest ih =>
    have hfirst := hsmall ⟨state, use, _, _⟩ (mem_useAll rest List.mem_cons_self)
    exact ih (.use (u := ⟨state, use, _, _⟩) h (Database.small_of_entries hfirst) rfl) hsmall

/-- Whatever becomes of the cache and whoever else calls the database, a cursor over a table whose
rows stay answers by its position in their list, and a page that cannot be fetched does not move
it. -/
theorem Usage.keeps_position {start : Database σ} {steps : List (Step σ)} {txn : TxnId}
    {uses : List (Used σ)} {state : Cursor × Database σ} (hfresh : start.Fresh)
    (hrun : Run locking start steps db) (hsmall : db.Small)
    (hr : db.catalog.registration r.file.id = .ok r)
    (husage : Usage locking r.file (Cursor.new r.file txn, db) uses state) :
    ∀ later u earlier, uses = later ++ u :: earlier →
      u.Answers locking r.file txn (db.tableRows r.file)
        (mark locking (db.tableRows r.file) earlier) := by
  intro later u earlier huses
  obtain ⟨hearlier, hsmallu, htaken⟩ := husage.split huses
  have hkept := hearlier.kept (hrun.coherent hfresh) hsmall hr
  have hkeeps := u.use.keeps hkept.coherent hsmallu hkept.registered hkept.rows_eq hkept.file_eq
    hkept.fits htaken
  refine ⟨hkeeps.answer_eq, fun e he => ?_⟩
  obtain ⟨n, -, hn, hrefused⟩ := obstacle?_eq_some hkept.coherent he
  rw [hkept.file_eq, hkept.txn_eq] at hrefused
  exact ⟨n, hkept.file_eq ▸ hn, hrefused⟩

/-- A cache for one page, and a table whose middle page is empty. The cursor cannot get past the
first page while another transaction has changed that one. It says so twice and stays where it is,
and as an iterator it says so once and is closed. When the change is stored, it is opened and goes
on to the end. -/
theorem Usage.keeps_position_one_place :
    ∃ steps db r uses state,
      Run .permissive (Database.ofTable Database.numbers 9 1) steps db ∧ db.Small ∧
      db.catalog.registration (TableFile.idOf ["t"]) = .ok r ∧
      Usage .permissive r.file (Cursor.new r.file ⟨3⟩, db) uses state ∧
      (db.tableRows r.file).map (fun row => (row.2.1, row.2.2)) =
        [([.int 6], some ⟨r.file.pageAt 0, 1⟩), ([.int 9], some ⟨r.file.pageAt 2, 0⟩)] ∧
      uses.reverse.map (fun u => (u.use, u.answer.map (Response.map Row.values))) =
        [(.hasNext, .ok (.more true)), (.nextRow, .ok (.row [.int 6])),
          (.hasNext, .error .cacheExhausted), (.nextRow, .error .cacheExhausted),
          (.next?, .error .cacheExhausted), (.next?, .ok (.item none)),
          (.nextRow, .error .endOfRows), (.reopen, .ok .done),
          (.next?, .ok (.item (some [.int 6]))), (.hasNext, .ok (.more true)),
          (.next?, .ok (.item (some [.int 9]))), (.hasNext, .ok (.more false)),
          (.next?, .ok (.item none)), (.nextRow, .error .endOfRows), (.rewind, .ok .done),
          (.nextRow, .ok (.row [.int 6])), (.close, .ok .done), (.hasNext, .ok (.more false))] ∧
      ∀ later u earlier, uses = later ++ u :: earlier →
        u.Answers .permissive r.file ⟨3⟩ (db.tableRows r.file)
          (mark .permissive (db.tableRows r.file) earlier) := by
  have hfresh : (Database.ofTable Database.numbers 9 1).Fresh :=
    .ofTable (by decide) (by decide) rfl
  let stored (n : Int32) (page : UInt32) (slot : Nat) : Row :=
    { (Database.number n).val with place := some ⟨⟨TableFile.idOf ["t"], page⟩, slot⟩ }
  have hrun := Run.of_calls .permissive (Database.ofTable Database.numbers 9 1)
    [.insert ⟨1⟩ (TableFile.idOf ["t"]) (Database.number 5),
      .insert ⟨1⟩ (TableFile.idOf ["t"]) (Database.number 6), .complete ⟨1⟩ true,
      .insert ⟨1⟩ (TableFile.idOf ["t"]) (Database.number 7), .complete ⟨1⟩ true,
      .insert ⟨1⟩ (TableFile.idOf ["t"]) (Database.number 8), .complete ⟨1⟩ true,
      .insert ⟨1⟩ (TableFile.idOf ["t"]) (Database.number 9), .complete ⟨1⟩ true,
      .delete ⟨1⟩ (stored 7 1 0), .complete ⟨1⟩ true, .delete ⟨1⟩ (stored 8 1 1),
      .complete ⟨1⟩ true, .delete ⟨2⟩ (stored 5 0 0)] (by decide +kernel)
  generalize hplay : Database.play .permissive [] (Database.ofTable Database.numbers 9 1) _ = played
    at hrun
  let r : Registration := ⟨⟨["t"], TableFile.idOf ["t"], Database.numbers, 9⟩, "t", "", .none⟩
  have hr : played.2.catalog.registration r.file.id = .ok r := by
    rw [← hplay]
    decide +kernel
  have hsmall : played.2.Small := Database.small_of_entries (by rw [← hplay]; decide +kernel)
  have hfirst := (nil : Usage .permissive r.file (Cursor.new r.file ⟨3⟩, played.2) [] _).useAll
    [.hasNext, .nextRow, .hasNext, .nextRow, .next?, .next?, .nextRow]
    (by rw [← hplay]; decide +kernel)
  generalize hused : Cursor.useAll .permissive [] (Cursor.new r.file ⟨3⟩, played.2) _ = used
    at hfirst
  obtain ⟨answer, after, hcomplete⟩ : ∃ answer after,
      (Database.perform .permissive (.complete ⟨2⟩ true)).run used.2.2 = (answer, after) :=
    ⟨_, _, rfl⟩
  have hafter : ((Database.perform .permissive (.complete ⟨2⟩ true)).run used.2.2).2 = after := by
    rw [hcomplete]
  have hcalled := hfirst.call (Database.small_of_entries (by rw [← hused, ← hplay]; decide +kernel))
    hcomplete (by rw [← hafter, ← hused, ← hplay]; decide +kernel)
  have hlast := hcalled.useAll [.reopen, .next?, .hasNext, .next?, .hasNext, .next?, .nextRow,
    .rewind, .nextRow, .close, .hasNext] (by rw [← hafter, ← hused, ← hplay]; decide +kernel)
  refine ⟨_, _, r, _, _, hrun, hsmall, hr, hlast, ?_, ?_,
    keeps_position hfresh hrun hsmall hr hlast⟩
  · rw [← hplay]
    decide +kernel
  · rw [← hafter, ← hused, ← hplay]
    decide +kernel

end Cursor

end RowStore
