import RowStore.Proofs.Database.Contents

/-!
# A cursor over a table that changes

Between the calls of a cursor anybody may insert and delete rows, end transactions and make the
cache give up pages, and the cursor's own calls may fail and be made again. The rows that it has
yielded and those that it has buffered are, in the order of their places, rows that the pages it
has read showed when it read them. So no place is yielded twice, and a row that stays in its place
until the cursor is at the end is not missed.
-/

namespace RowStore

namespace Cursor

/-- What may happen to a cursor and to its database. Rewinding is opening anew. -/
inductive Event where
  | reopen
  | hasNext
  | nextRow
  | call (c : Call)

inductive Reply where
  | opened
  | more (answer : Bool)
  | row (row : Row)
  | called (answer : Answer)

/-- One event, with the cursor and the database before and after it. -/
structure Stride (σ : Type) where
  before : Cursor × Database σ
  event : Event
  answer : Except StorageError Reply
  after : Cursor × Database σ

variable {σ : Type}

theorem rewind_eq (c : Cursor) : c.rewind = c.reopen := rfl

def perform (locking : LockManager σ) : Event → Action (Cursor × Database σ) Reply
  | .reopen => (fun _ => .opened) <$> .update fun s => (s.1.reopen, s.2)
  | .hasNext => .more <$> hasNext locking
  | .nextRow => .row <$> nextRow locking
  | .call c => (.called <$> Database.perform locking c).within Prod.snd fun db s => (s.1, db)

namespace Stride

def Taken (locking : LockManager σ) (s : Stride σ) : Prop :=
  (perform locking s.event).run s.before = (s.answer, s.after)

def yield? (s : Stride σ) : Option Row :=
  match s.answer with
  | .ok (.row r) => some r
  | _ => none

/-- The page at a position was read. -/
def Turns (s : Stride σ) (n : Nat) : Prop := s.before.1.nextPage ≤ n ∧ n < s.after.1.nextPage

/-- The cursor found that there are no more rows, whether it was asked for that or for a row. -/
def Exhausted (locking : LockManager σ) (s : Stride σ) : Prop :=
  (s.event = .hasNext ∨ s.event = .nextRow) ∧ ((hasNext locking).run s.before).1 = .ok false

end Stride

/-- Events one after another, the last one first, and what they lead to. No event starts where a
table has used up its page numbers. -/
inductive Walk (locking : LockManager σ) (start : Cursor × Database σ) :
    List (Stride σ) → Cursor × Database σ → Prop
  | nil : Walk locking start [] start
  | cons {strides : List (Stride σ)} {s : Stride σ} : Walk locking start strides s.before →
      s.before.2.Small → s.Taken locking → Walk locking start (s :: strides) s.after

/-- The events since the cursor was opened last. -/
def sinceOpened : List (Stride σ) → List (Stride σ)
  | [] => []
  | s :: strides =>
    match s.event with
    | .reopen => []
    | _ => s :: sinceOpened strides

/-- The rows that a cursor yielded, in this order. -/
def yielded : List (Stride σ) → List Row
  | [] => []
  | s :: strides => yielded strides ++ s.yield?.toList

theorem yielded_append (later earlier : List (Stride σ)) :
    yielded (later ++ earlier) = yielded earlier ++ yielded later := by
  induction later with
  | nil => simp [yielded]
  | cons s later ih => simp [yielded, ih]

theorem sinceOpened_append {strides later earlier : List (Stride σ)}
    (h : sinceOpened strides = later ++ earlier) :
    ∃ before, strides = later ++ before ∧ sinceOpened before = earlier := by
  induction later generalizing strides with
  | nil => exact ⟨strides, rfl, h⟩
  | cons s later ih =>
    cases strides with
    | nil => cases h
    | cons t strides =>
      rw [sinceOpened] at h
      split at h
      · cases h
      · obtain ⟨rfl, hrest⟩ := List.cons.inj h
        obtain ⟨before, rfl, hbefore⟩ := ih hrest
        exact ⟨before, rfl, hbefore⟩

variable {locking : LockManager σ} {r : Registration} {c c' : Cursor} {db db' : Database σ}

/-! ## Reading on -/

/-- A cursor has read on: what it buffered before comes first, then the rows of the pages that it
read, of which all but the last one have none. -/
structure Advanced (c : Cursor) (db : Database σ) (rows : List Row) (c' : Cursor)
    (db' : Database σ) : Prop where
  quiet : db.Quiet db'
  cursor_eq : c' = { c with nextPage := c'.nextPage, buffered := c'.buffered }
  nextPage_le : c.nextPage ≤ c'.nextPage
  buffered_eq : c'.buffered = c.buffered ++ rows
  listed : db.view.Listed c.file (List.range' c.nextPage (c'.nextPage - c.nextPage)) rows

/-- A cursor that stays where it is. -/
theorem Advanced.stay (h : db.Quiet db') : Advanced c db [] c db' where
  quiet := h
  cursor_eq := rfl
  nextPage_le := Nat.le_refl _
  buffered_eq := (List.append_nil _).symm
  listed := by
    rw [Nat.sub_self]
    exact ⟨.nil, by simp, by simp⟩

/-- A page is turned by a cursor that has nothing to yield. -/
theorem Advanced.turn {mid : Database σ} {frame : Frame} {rows : List Row}
    (hr : db.catalog.registration c.file.id = .ok r) (hempty : c.buffered = [])
    (hf : Database.Fetched c.txn (c.file.pageAt c.nextPage) .readOnly db frame mid)
    (hlt : c'.nextPage ≤ 0x100000000)
    (h : Advanced { c with nextPage := c.nextPage + 1, buffered := frame.page.rows } mid rows
      c' db') : Advanced c db (frame.page.rows ++ rows) c' db' := by
  have hquiet := Database.Quiet.of_fetched hf
  obtain ⟨hb, hid⟩ := hf.belongs hr
  have hle : c.nextPage + 1 ≤ c'.nextPage := h.nextPage_le
  refine ⟨hquiet.trans h.quiet, h.cursor_eq, by omega, ?_, ?_⟩
  · rw [h.buffered_eq, hempty, List.nil_append]
  · have hrange : List.range' c.nextPage (c'.nextPage - c.nextPage) =
        c.nextPage :: List.range' (c.nextPage + 1) (c'.nextPage - (c.nextPage + 1)) := by
      rw [← List.range'_succ]
      congr 1
      omega
    have hlisted := h.listed
    rw [hquiet.view_eq] at hlisted
    rw [hrange]
    refine hlisted.cons ?_ hb.sound hid hf.shows
    intro m hm
    have hm := List.mem_range'_1.1 hm
    dsimp only at hm
    omega

/-- A cursor reads on from page to page, until it has a row, or there is no page left, or a page
cannot be fetched. -/
theorem advanced {answer : Except StorageError Bool} (h : db.Coherent)
    (hr : db.catalog.registration c.file.id = .ok r) (count : Nat)
    (hsmall : c.nextPage + count ≤ 0x100000000)
    (hrun : (advance locking (List.range' c.nextPage count)).run (c, db) = (answer, c', db')) :
    (∃ rows, Advanced c db rows c' db') ∧ c'.nextPage ≤ c.nextPage + count ∧
      ∀ b, answer = .ok b →
        b = !c'.buffered.isEmpty ∧ (b = false → c'.nextPage = c.nextPage + count) := by
  induction count generalizing c db with
  | zero =>
    obtain ⟨rfl, hstate⟩ := Prod.mk.inj hrun
    obtain ⟨rfl, rfl⟩ := Prod.mk.inj hstate
    refine ⟨⟨[], .stay (.refl h)⟩, Nat.le_refl _, ?_⟩
    intro b hb
    exact ⟨(Except.ok.inj hb).symm, fun _ => rfl⟩
  | succ count ih =>
    rw [List.range'_succ, advance, Action.run_bind, Action.run_ask] at hrun
    dsimp only at hrun
    cases hbuffered : c.buffered with
    | cons first rest =>
      simp only [hbuffered, List.isEmpty_cons, Bool.false_eq_true, if_false,
        Action.run_pure] at hrun
      obtain ⟨rfl, hstate⟩ := Prod.mk.inj hrun
      obtain ⟨rfl, rfl⟩ := Prod.mk.inj hstate
      refine ⟨⟨[], .stay (.refl h)⟩, by omega, ?_⟩
      intro b hb
      obtain rfl := Except.ok.inj hb
      simp [hbuffered]
    | nil =>
      simp only [hbuffered, List.isEmpty_nil, if_true, Action.run_bind] at hrun
      rcases hfetch : (Database.fetch locking c.txn (c.file.pageAt c.nextPage) .readOnly []).run db
        with ⟨fetched, mid⟩
      simp only [Cursor.turn, pageRows, Action.run_bind, hfetch] at hrun
      rcases h.fetch hfetch with ⟨e, rfl, hmid⟩ | ⟨frame, rfl, hf⟩
      · obtain ⟨rfl, hstate⟩ := Prod.mk.inj hrun
        obtain ⟨rfl, rfl⟩ := Prod.mk.inj hstate
        exact ⟨⟨[], .stay (.of_failed h hmid)⟩, by omega, by simp⟩
      · simp only [Action.run_pure] at hrun
        obtain ⟨⟨rows, hrows⟩, hle, hanswer⟩ := ih
          (c := { c with nextPage := c.nextPage + 1, buffered := frame.page.rows }) hf.coherent
          (hf.catalog_eq ▸ hr) (by dsimp only; omega) hrun
        dsimp only at hle hanswer
        refine ⟨⟨_, .turn hr hbuffered hf (by omega) hrows⟩, by omega, ?_⟩
        intro b hb
        obtain ⟨hb, hend⟩ := hanswer b hb
        refine ⟨hb, fun hfalse => ?_⟩
        have := hend hfalse
        omega

/-- What asking a cursor for another row does. -/
theorem advanced_of_hasNext {answer : Except StorageError Bool} (h : db.Coherent)
    (hsmall : db.Small) (hr : db.catalog.registration r.file.id = .ok r) (hfile : c.file = r.file)
    (hopen : c.closed = false) (hnext : c.nextPage ≤ 0x100000000)
    (hrun : (hasNext locking).run (c, db) = (answer, c', db')) :
    (∃ rows, Advanced c db rows c' db') ∧ c'.nextPage ≤ 0x100000000 ∧
      ∀ b, answer = .ok b → b = !c'.buffered.isEmpty ∧
        (b = false → r.file.pageCount db.volume ≤ c'.nextPage) := by
  have hcount := hsmall _ r hr
  rw [hasNext, Action.run_bind, Action.run_ask] at hrun
  simp only [hopen, Bool.false_eq_true, if_false, Action.run_bind, Action.run_ask,
    pagesLeft] at hrun
  rw [hfile] at hrun
  obtain ⟨hrows, hle, hanswer⟩ := advanced h (hfile ▸ hr)
    (r.file.pageCount db.volume - c.nextPage) (by omega) hrun
  refine ⟨hrows, by omega, ?_⟩
  intro b hb
  obtain ⟨hb, hend⟩ := hanswer b hb
  refine ⟨hb, fun hfalse => ?_⟩
  have := hend hfalse
  omega

/-! ## One event -/

namespace Stride

variable {s : Stride σ} {rows : List Row}

/-- The cursor read on and perhaps yielded the first row that it had. -/
structure Reads (s : Stride σ) (rows : List Row) : Prop where
  quiet : s.before.2.Quiet s.after.2
  cursor_eq : s.after.1 =
    { s.before.1 with nextPage := s.after.1.nextPage, buffered := s.after.1.buffered }
  nextPage_le : s.before.1.nextPage ≤ s.after.1.nextPage
  rows_eq : s.yield?.toList ++ s.after.1.buffered = s.before.1.buffered ++ rows
  listed : s.before.2.view.Listed s.before.1.file
    (List.range' s.before.1.nextPage (s.after.1.nextPage - s.before.1.nextPage)) rows

theorem reads_of_advanced (mid : Cursor) (h : Advanced s.before.1 s.before.2 rows mid s.after.2)
    (hcursor : s.after.1 = { mid with buffered := s.after.1.buffered })
    (hrows : s.yield?.toList ++ s.after.1.buffered = mid.buffered) : s.Reads rows := by
  have hnext : s.after.1.nextPage = mid.nextPage := by rw [hcursor]
  refine ⟨h.quiet, ?_, hnext ▸ h.nextPage_le, hrows.trans h.buffered_eq, hnext ▸ h.listed⟩
  rw [hcursor, h.cursor_eq]

variable (h : s.Taken locking) (hc : s.before.2.Coherent) (hsmall : s.before.2.Small)
  (hr : s.before.2.catalog.registration r.file.id = .ok r) (hfile : s.before.1.file = r.file)
  (hopen : s.before.1.closed = false) (hnext : s.before.1.nextPage ≤ 0x100000000)

include h hc hsmall hr hfile hopen hnext

/-- A cursor that is asked whether there is a row, or for a row, reads on; if it finds that there is
none, it has read all pages of the file and yielded all their rows. -/
theorem Taken.reads (hevent : s.event = .hasNext ∨ s.event = .nextRow) :
    (∃ rows, s.Reads rows) ∧ s.after.1.nextPage ≤ 0x100000000 ∧
      (s.Exhausted locking → s.yield? = none ∧ s.after.1.buffered = [] ∧
        r.file.pageCount s.before.2.volume ≤ s.after.1.nextPage) := by
  rcases hhas : (hasNext locking).run s.before with ⟨answer, mid, db⟩
  obtain ⟨⟨rows, hrows⟩, hle, hanswer⟩ :=
    advanced_of_hasNext hc hsmall hr hfile hopen hnext hhas
  -- without a row to yield, the cursor is left as `hasNext` left it
  have hstill (hafter : s.after = (mid, db)) (hyield : s.yield? = none) :
      (∃ rows, s.Reads rows) ∧ s.after.1.nextPage ≤ 0x100000000 ∧
        (s.Exhausted locking → s.yield? = none ∧ s.after.1.buffered = [] ∧
          r.file.pageCount s.before.2.volume ≤ s.after.1.nextPage) := by
    have hmid : s.after.1 = mid := congrArg Prod.fst hafter
    have hdb : s.after.2 = db := congrArg Prod.snd hafter
    refine ⟨⟨rows, reads_of_advanced mid (hdb ▸ hrows) ?_ ?_⟩, hmid ▸ hle, ?_⟩
    · rw [hmid]
    · rw [hyield, hmid]
      rfl
    · rintro ⟨-, hfalse⟩
      rw [hhas] at hfalse
      obtain ⟨hbuffered, hend⟩ := hanswer false hfalse
      exact ⟨hyield, by simpa [hmid] using hbuffered, hmid ▸ hend rfl⟩
  unfold Taken at h
  rcases hevent with hevent | hevent
  · rw [hevent, perform, Action.run_map, hhas] at h
    obtain ⟨hanswered, hafter⟩ := Prod.mk.inj h
    refine hstill hafter.symm ?_
    rw [yield?, ← hanswered]
    cases answer <;> rfl
  · rw [hevent, perform, Action.run_map, nextRow, Action.run_bind, hhas] at h
    rcases answer with e | _ | _
    · obtain ⟨hanswered, hafter⟩ := Prod.mk.inj h
      refine hstill hafter.symm ?_
      rw [yield?, ← hanswered]
      rfl
    · obtain ⟨hanswered, hafter⟩ := Prod.mk.inj h
      refine hstill hafter.symm ?_
      rw [yield?, ← hanswered]
      rfl
    · obtain ⟨hbuffered, -⟩ := hanswer true rfl
      cases hfirst : mid.buffered with
      | nil => simp [hfirst] at hbuffered
      | cons first rest =>
        simp only [if_true, takeBuffered, hfirst] at h
        obtain ⟨hanswered, hafter⟩ := Prod.mk.inj h
        have hyield : s.yield? = some first := by
          rw [yield?, ← hanswered]
          rfl
        have hmid : s.after.1 = { mid with buffered := rest } := (congrArg Prod.fst hafter).symm
        have hdb : s.after.2 = db := (congrArg Prod.snd hafter).symm
        refine ⟨⟨rows, reads_of_advanced mid (hdb ▸ hrows) ?_ ?_⟩, hmid ▸ hle, ?_⟩
        · rw [hmid]
        · rw [hyield, hmid, hfirst]
          rfl
        · rintro ⟨-, hfalse⟩
          rw [hhas] at hfalse
          cases hfalse

omit hr hfile hopen hnext in
/-- Whoever calls the database leaves the cursor alone. -/
theorem Taken.of_call {call : Call} (hevent : s.event = .call call) :
    s.after.1 = s.before.1 ∧ s.yield? = none ∧ s.after.2.Coherent ∧
      s.after.2.catalog = s.before.2.catalog := by
  unfold Taken at h
  rw [hevent, perform, Action.run_within, Action.run_map] at h
  obtain ⟨hanswered, hafter⟩ := Prod.mk.inj h
  have heffect : Database.Effect s.before.2 _ call _ :=
    hc.effect hsmall (Prod.ext rfl rfl : (Database.perform locking call).run s.before.2 = _)
  rw [← hafter]
  refine ⟨rfl, ?_, heffect.coherent⟩
  rw [yield?, ← hanswered]
  cases ((Database.perform locking call).run s.before.2).1 <;> rfl

end Stride

/-! ## A whole walk -/

/-- What a cursor over a table yielded and buffered since it was opened. -/
structure Sweeps (file : TableFile) (strides : List (Stride σ)) (c : Cursor) : Prop where
  file_eq : c.file = file
  opened : c.closed = false
  nextPage_le : c.nextPage ≤ 0x100000000
  ordered : (yielded strides ++ c.buffered).Pairwise Row.Precedes
  shown : ∀ row ∈ yielded strides ++ c.buffered, ∃ n < c.nextPage, ∃ slot,
    row.place = some ⟨file.pageAt n, slot⟩ ∧ ∃ s ∈ strides, s.Turns n ∧
      s.before.2.contents ⟨file.pageAt n, slot⟩ = some row.values ∧
      s.after.2.contents = s.before.2.contents
  complete : ∀ n < c.nextPage, ∀ (slot : Nat) (values : List Value),
    (∀ s ∈ strides, s.before.2.contents ⟨file.pageAt n, slot⟩ = some values) →
    ∃ row ∈ yielded strides ++ c.buffered,
      row.place = some ⟨file.pageAt n, slot⟩ ∧ row.values = values

namespace Sweeps

variable {file : TableFile} {strides : List (Stride σ)} {s : Stride σ} {rows : List Row}

theorem reopen {c : Cursor} (hfile : c.file = file) :
    Sweeps file ([] : List (Stride σ)) c.reopen :=
  ⟨hfile, rfl, Nat.zero_le _, .nil, by simp [yielded, Cursor.reopen], by simp [Cursor.reopen]⟩

theorem call (h : Sweeps file strides s.before.1) (hcursor : s.after.1 = s.before.1)
    (hyield : s.yield? = none) : Sweeps file (s :: strides) s.after.1 := by
  have hrows : yielded (s :: strides) = yielded strides := by simp [yielded, hyield]
  rw [hcursor]
  refine ⟨h.file_eq, h.opened, h.nextPage_le, hrows ▸ h.ordered, ?_, ?_⟩
  · intro row hrow
    obtain ⟨n, hn, slot, hplace, t, ht, hturns⟩ := h.shown row (hrows ▸ hrow)
    exact ⟨n, hn, slot, hplace, t, List.mem_cons_of_mem _ ht, hturns⟩
  · intro n hn slot values hkept
    rw [hrows]
    exact h.complete n hn slot values fun t ht => hkept t (List.mem_cons_of_mem _ ht)

/-- The rows of the pages that are read come after all others. -/
theorem read (h : Sweeps file strides s.before.1) (hreads : s.Reads rows)
    (hle : s.after.1.nextPage ≤ 0x100000000) : Sweeps file (s :: strides) s.after.1 := by
  have hrows : yielded (s :: strides) ++ s.after.1.buffered =
      (yielded strides ++ s.before.1.buffered) ++ rows := by
    rw [yielded, List.append_assoc, hreads.rows_eq, List.append_assoc]
  have hlisted := hreads.listed
  rw [h.file_eq] at hlisted
  have hrange {m : Nat} : m ∈ List.range' s.before.1.nextPage
      (s.after.1.nextPage - s.before.1.nextPage) ↔ s.Turns m := by
    have := hreads.nextPage_le
    rw [List.mem_range'_1, Stride.Turns]
    omega
  refine ⟨?_, ?_, hle, ?_, ?_, ?_⟩
  · rw [hreads.cursor_eq]
    exact h.file_eq
  · rw [hreads.cursor_eq]
    exact h.opened
  · rw [hrows]
    refine List.pairwise_append.2 ⟨h.ordered, hlisted.ordered, ?_⟩
    intro a ha b hb
    obtain ⟨n, hn, slot, hplace, -⟩ := h.shown a ha
    obtain ⟨m, hm, slot', hplace', -⟩ := hlisted.shown b hb
    obtain ⟨hge, hlt⟩ := hrange.1 hm
    refine ⟨_, _, hplace, hplace', .inl (UInt32.lt_iff_toNat_lt.2 ?_)⟩
    rw [View.number_pageAt (by omega), View.number_pageAt (by omega)]
    omega
  · rw [hrows]
    intro row hrow
    rcases List.mem_append.1 hrow with hrow | hrow
    · obtain ⟨n, hn, slot, hplace, t, ht, hturns⟩ := h.shown row hrow
      exact ⟨n, Nat.lt_of_lt_of_le hn hreads.nextPage_le, slot, hplace, t,
        List.mem_cons_of_mem _ ht, hturns⟩
    · obtain ⟨n, hn, slot, hplace, hv⟩ := hlisted.shown row hrow
      have hturns := hrange.1 hn
      exact ⟨n, hturns.2, slot, hplace, s, List.mem_cons_self, hturns, hv,
        Database.contents_of_view_eq hreads.quiet.view_eq⟩
  · rw [hrows]
    intro n hn slot values hkept
    by_cases hold : n < s.before.1.nextPage
    · obtain ⟨row, hrow, hv⟩ := h.complete n hold slot values fun t ht =>
        hkept t (List.mem_cons_of_mem _ ht)
      exact ⟨row, List.mem_append_left _ hrow, hv⟩
    · obtain ⟨row, hrow, hv⟩ := hlisted.complete n (hrange.2 ⟨Nat.not_lt.1 hold, hn⟩) slot values
        (hkept s List.mem_cons_self)
      exact ⟨row, List.mem_append_right _ hrow, hv⟩

end Sweeps

namespace Walk

variable {start state : Cursor × Database σ} {strides : List (Stride σ)}

/-- The events before one of them are a walk too. -/
theorem split {later earlier : List (Stride σ)} {s : Stride σ}
    (h : Walk locking start (later ++ s :: earlier) state) :
    Walk locking start earlier s.before ∧ s.before.2.Small ∧ s.Taken locking := by
  induction later generalizing state with
  | nil =>
    cases h with
    | cons hwalk hsmall htaken => exact ⟨hwalk, hsmall, htaken⟩
  | cons t later ih =>
    cases h with
    | cons hwalk _ _ => exact ih hwalk

theorem sweeps {txn : TxnId} (hwalk : Walk locking (Cursor.new r.file txn, db) strides state)
    (h : db.Coherent) (hr : db.catalog.registration r.file.id = .ok r) :
    state.2.Coherent ∧ state.2.catalog.registration r.file.id = .ok r ∧
      Sweeps r.file (sinceOpened strides) state.1 := by
  induction hwalk with
  | nil => exact ⟨h, hr, .reopen (c := Cursor.new r.file txn) rfl⟩
  | @cons strides s hwalk hsmall htaken ih =>
    obtain ⟨hc, hr', hsweeps⟩ := ih
    have hreads := htaken.reads hc hsmall hr' hsweeps.file_eq hsweeps.opened hsweeps.nextPage_le
    cases hevent : s.event with
    | reopen =>
      have hrun := htaken
      rw [Stride.Taken, hevent] at hrun
      obtain ⟨-, hafter⟩ := Prod.mk.inj hrun
      rw [sinceOpened, hevent, ← hafter]
      exact ⟨hc, hr', .reopen hsweeps.file_eq⟩
    | hasNext =>
      obtain ⟨⟨rows, hrows⟩, hle, -⟩ := hreads (.inl hevent)
      rw [sinceOpened, hevent]
      exact ⟨hrows.quiet.coherent, hrows.quiet.catalog_eq ▸ hr', hsweeps.read hrows hle⟩
    | nextRow =>
      obtain ⟨⟨rows, hrows⟩, hle, -⟩ := hreads (.inr hevent)
      rw [sinceOpened, hevent]
      exact ⟨hrows.quiet.coherent, hrows.quiet.catalog_eq ▸ hr', hsweeps.read hrows hle⟩
    | call call =>
      obtain ⟨hcursor, hyield, hafter, hcatalog⟩ := htaken.of_call hc hsmall hevent
      rw [sinceOpened, hevent]
      exact ⟨hafter, hcatalog ▸ hr', hsweeps.call hcursor hyield⟩

end Walk

/-- Let events happen one after another. The strides come the last one first, before the given
ones. -/
def play (locking : LockManager σ) (strides : List (Stride σ)) (state : Cursor × Database σ) :
    List Event → List (Stride σ) × (Cursor × Database σ)
  | [] => (strides, state)
  | event :: events =>
    let result := (perform locking event).run state
    play locking (⟨state, event, result.1, result.2⟩ :: strides) result.2 events

theorem mem_play {strides : List (Stride σ)} {state : Cursor × Database σ} {s : Stride σ}
    (events : List Event) (h : s ∈ strides) : s ∈ (play locking strides state events).1 := by
  induction events generalizing strides state with
  | nil => exact h
  | cons event events ih => exact ih (List.mem_cons_of_mem _ h)

/-- Events are a walk if the files stay small. -/
theorem Walk.play {start state : Cursor × Database σ} {strides : List (Stride σ)}
    {events : List Event} (h : Walk locking start strides state)
    (hsmall : ∀ s ∈ (Cursor.play locking strides state events).1,
      ∀ e ∈ s.before.2.catalog.byId.entries,
        e.2.file.pageCount s.before.2.volume < 0x100000000) :
    Walk locking start (Cursor.play locking strides state events).1
      (Cursor.play locking strides state events).2 := by
  induction events generalizing strides state with
  | nil => exact h
  | cons event events ih =>
    have hfirst := hsmall ⟨state, event, _, _⟩ (mem_play events List.mem_cons_self)
    exact ih (.cons (s := ⟨state, event, _, _⟩) h (Database.small_of_entries hfirst) rfl) hsmall

end Cursor

/-- Rows in the order of their places have places of their own. -/
theorem Row.filter_place_eq {rows : List Row} {row : Row} {spot : RowId}
    (h : rows.Pairwise Row.Precedes) (hrow : row ∈ rows) (hplace : row.place = some spot) :
    rows.filter (fun r => r.place = some spot) = [row] := by
  have hother {r s : Row} (hrs : r.Precedes s) (hr : r.place = some spot) :
      s.place ≠ some spot := by
    obtain ⟨a, b, ha, hb, hbefore⟩ := hrs
    obtain rfl := Option.some.inj (ha.symm.trans hr)
    rw [hb]
    rintro ⟨⟩
    rcases hbefore with hlt | ⟨-, hlt⟩
    · exact UInt32.lt_irrefl _ hlt
    · exact Nat.lt_irrefl _ hlt
  induction rows with
  | nil => cases hrow
  | cons first rows ih =>
    obtain ⟨hfirst, hrows⟩ := List.pairwise_cons.1 h
    rcases List.mem_cons.1 hrow with rfl | hrow
    · rw [List.filter_cons_of_pos (by simpa using hplace), List.filter_eq_nil_iff.2]
      intro s hs
      simpa using hother (hfirst s hs) hplace
    · have hne : first.place ≠ some spot := fun heq => hother (hfirst row hrow) heq hplace
      rw [List.filter_cons_of_neg (by simpa using hne), ih hrows hrow]

/-- Since a cursor was opened or rewound, whatever else is done to the table and whichever of the
cursor's calls fail: the rows come in the order of their places, each was in its place when its page
was read, and those that stay in their places until the cursor finds the end come exactly once. -/
theorem Cursor.Walk.yields_steady_rows {σ : Type} {locking : LockManager σ}
    {start db : Database σ} {steps : List (Step σ)} {r : Registration} {txn : TxnId}
    {strides : List (Stride σ)} {state : Cursor × Database σ} (hfresh : start.Fresh)
    (hrun : Run locking start steps db) (hr : db.catalog.registration r.file.id = .ok r)
    (hwalk : Walk locking (Cursor.new r.file txn, db) strides state) :
    (yielded (sinceOpened strides)).Pairwise Row.Precedes ∧
      (∀ row ∈ yielded (sinceOpened strides), ∃ (n slot : Nat) (s : Stride σ),
        s ∈ sinceOpened strides ∧ s.Turns n ∧ row.place = some ⟨r.file.pageAt n, slot⟩ ∧
        s.before.2.contents ⟨r.file.pageAt n, slot⟩ = some row.values ∧
        s.after.2.contents = s.before.2.contents) ∧
      ∀ later s earlier, sinceOpened strides = later ++ s :: earlier → s.Exhausted locking →
        ∀ (spot : RowId) (values : List Value), spot.page.table = r.file.id →
          (∀ t ∈ s :: earlier, t.before.2.contents spot = some values) →
          ∃ row ∈ yielded earlier, row.values = values ∧
            (yielded (sinceOpened strides)).filter (fun y => y.place = some spot) = [row] := by
  have hcoherent := hrun.coherent hfresh
  obtain ⟨-, -, hsweeps⟩ := hwalk.sweeps hcoherent hr
  have hordered := (List.pairwise_append.1 hsweeps.ordered).1
  refine ⟨hordered, ?_, ?_⟩
  · intro row hrow
    obtain ⟨n, -, slot, hplace, s, hs, hturns, hcontents⟩ :=
      hsweeps.shown row (List.mem_append_left _ hrow)
    exact ⟨n, slot, s, hs, hturns, hplace, hcontents⟩
  · rintro later s earlier hstrides hend ⟨⟨table, number⟩, slot⟩ values htable hkept
    obtain rfl : table = r.file.id := htable
    obtain ⟨before, rfl, hbefore⟩ := sinceOpened_append hstrides
    obtain ⟨before, rfl, rfl⟩ : ∃ rest, before = [s] ++ rest ∧ sinceOpened rest = earlier :=
      sinceOpened_append hbefore
    obtain ⟨hearlier, hsmall, htaken⟩ := hwalk.split
    obtain ⟨hc, hr', hbefore⟩ := hearlier.sweeps hcoherent hr
    obtain ⟨⟨rows, hreads⟩, hle, hlast⟩ := htaken.reads hc hsmall hr' hbefore.file_eq
      hbefore.opened hbefore.nextPage_le hend.1
    obtain ⟨hyield, hbuffered, hcount⟩ := hlast hend
    have hafter := hbefore.read hreads hle
    -- the row lies on a page of the file, and all of these were read
    obtain ⟨cells, hcells, -⟩ := Option.bind_eq_some_iff.1 (hkept s List.mem_cons_self)
    obtain ⟨r', hr'', hlt⟩ := hc.number_lt hcells
    obtain rfl := Except.ok.inj (hr'.symm.trans hr'')
    have hpage : r.file.pageAt number.toNat = ⟨r.file.id, number⟩ := by simp [TableFile.pageAt]
    obtain ⟨row, hrow, hplace, hvalues⟩ := hafter.complete number.toNat
      (Nat.lt_of_lt_of_le hlt hcount) slot values (hpage ▸ hkept)
    have hrow : row ∈ yielded (sinceOpened before) := by
      simpa [yielded, hyield, hbuffered] using hrow
    refine ⟨row, hrow, hvalues, Row.filter_place_eq hordered ?_ (hpage ▸ hplace)⟩
    rw [hstrides, yielded_append, yielded]
    exact List.mem_append_left _ (List.mem_append_left _ hrow)

/-- A cursor in a cache for one page. It cannot read the first page while the second one is changed,
and is rewound before it is asked again. It yields a row that was deleted after it had read the
page, and not one that was inserted into that page later; the row of the second page stays all the
time. -/
theorem Cursor.Walk.yields_steady_rows_one_place :
    ∃ steps db r strides state,
      Run .permissive (Database.ofTable Database.numbers 9 1) steps db ∧
      db.catalog.registration (TableFile.idOf ["t"]) = .ok r ∧
      Walk .permissive (Cursor.new r.file ⟨3⟩, db) strides state ∧
      strides.map (fun s => s.answer.toOption.isSome) =
        [true, true, true, true, true, true, true, true, false, true, false] ∧
      (yielded (sinceOpened strides)).map Row.values = [[.int 5], [.int 6], [.int 7]] ∧
      (yielded (sinceOpened strides)).Pairwise Row.Precedes ∧
      ∃ row, row.values = [.int 7] ∧ (yielded (sinceOpened strides)).filter
        (fun y => y.place = some ⟨⟨TableFile.idOf ["t"], 1⟩, 0⟩) = [row] := by
  have hfresh : (Database.ofTable Database.numbers 9 1).Fresh :=
    .ofTable (by decide) (by decide) rfl
  have hrun := Run.of_calls .permissive (Database.ofTable Database.numbers 9 1)
    [.insert ⟨1⟩ (TableFile.idOf ["t"]) (Database.number 5),
      .insert ⟨1⟩ (TableFile.idOf ["t"]) (Database.number 6), .complete ⟨1⟩ true,
      .insert ⟨1⟩ (TableFile.idOf ["t"]) (Database.number 7)] (by decide +kernel)
  generalize hplay : Database.play .permissive [] (Database.ofTable Database.numbers 9 1) _ = played
    at hrun
  let r : Registration := ⟨⟨["t"], TableFile.idOf ["t"], Database.numbers, 9⟩, "t", "", .none⟩
  have hr : played.2.catalog.registration r.file.id = .ok r := by
    rw [← hplay]
    decide +kernel
  generalize hwalked : Cursor.play .permissive [] (Cursor.new r.file ⟨3⟩, played.2)
    [.hasNext, .reopen, .nextRow, .call (.complete ⟨1⟩ true), .nextRow,
      .call (.delete ⟨2⟩ { (Database.number 6).val with
        place := some ⟨⟨TableFile.idOf ["t"], 0⟩, 1⟩ }),
      .call (.complete ⟨2⟩ true), .nextRow, .nextRow,
      .call (.insert ⟨2⟩ (TableFile.idOf ["t"]) (Database.number 8)), .hasNext] = walked
  have hwalk : Walk .permissive (Cursor.new r.file ⟨3⟩, played.2) walked.1 walked.2 := by
    rw [← hwalked]
    exact Walk.nil.play (by rw [← hplay]; decide +kernel)
  obtain ⟨s, earlier, hstrides, hevent⟩ :
      ∃ s earlier, sinceOpened walked.1 = [] ++ s :: earlier ∧ s.event = .hasNext := by
    rw [← hwalked]
    exact ⟨_, _, rfl, rfl⟩
  have hend : ((hasNext .permissive).run s.before).1 = .ok false := by
    have : ∀ s ∈ (sinceOpened walked.1).head?,
        ((hasNext .permissive).run s.before).1 = .ok false := by
      rw [← hwalked, ← hplay]
      decide +kernel
    exact this s (by simp [hstrides])
  have hkept : ∀ t ∈ s :: earlier,
      t.before.2.contents ⟨⟨TableFile.idOf ["t"], 1⟩, 0⟩ = some [.int 7] := by
    have : ∀ t ∈ sinceOpened walked.1,
        t.before.2.contents ⟨⟨TableFile.idOf ["t"], 1⟩, 0⟩ = some [.int 7] := by
      rw [← hwalked, ← hplay]
      decide +kernel
    simpa [hstrides] using this
  obtain ⟨hordered, -, hsteady⟩ := Cursor.Walk.yields_steady_rows hfresh hrun hr hwalk
  obtain ⟨row, -, hrow⟩ := hsteady [] s earlier hstrides ⟨.inl hevent, hend⟩ _ _ rfl hkept
  refine ⟨_, _, r, walked.1, walked.2, hrun, hr, hwalk, ?_, ?_, hordered, row, hrow⟩
  · rw [← hwalked, ← hplay]
    decide +kernel
  · rw [← hwalked, ← hplay]
    decide +kernel

end RowStore
