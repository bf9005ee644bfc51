import RowStore.Proofs.Database.Visits

/-!
# The rows that are read

A scan yields the rows of the pages that it sees. A cursor may be used by several calls, so the rows
that it yields are on the pages that this call sees, or they were left in the buffer by an earlier
one.
-/

namespace RowStore

/-- The rows of the pages that were seen. -/
def Visit.rows (visits : List Visit) : List Row := visits.flatMap fun v => v.frame.page.rows

namespace Database

variable {σ : Type} (file : TableFile)

/-! ## Scanning -/

/-- Of the page at a position the rows are seen, if it can be fetched. -/
theorem visits_pageRows (locking : LockManager σ) (txn : TxnId) (n : Nat) (db : Database σ) :
    ∃ visits, Visits locking txn (Cursor.pageRows locking file txn n) db visits ∧
      Visit.rows visits = ((Cursor.pageRows locking file txn n).run db).1.toOption.getD [] := by
  have hlook : Visits locking txn (fetch locking txn (file.pageAt n) .readOnly []) db _ :=
    .look (file.pageAt n) .readOnly []
  rcases hrun : (fetch locking txn (file.pageAt n) .readOnly []).run db with ⟨e | frame, mid⟩
  · refine ⟨_, .ended hlook hrun, ?_⟩
    rw [Cursor.pageRows, Action.run_bind_of_error hrun, hrun]
    rfl
  · refine ⟨_, .bind hlook hrun (.outline (fun _ => .ok frame.page.rows) fun _ => rfl), ?_⟩
    rw [Cursor.pageRows, Action.run_bind_of_ok hrun, hrun]
    simp [Visit.rows, Visit.ofFetch, Except.toOption]

/-- A scan yields the rows that it sees, also if it is broken off. -/
theorem visits_drainPages (locking : LockManager σ) (txn : TxnId) (ns : List Nat)
    (db : Database σ) :
    ∃ visits, Visits locking txn (.step (Cursor.drainPages locking file txn ns)) db visits ∧
      (Cursor.drainPages locking file txn ns db).1.rows = Visit.rows visits := by
  induction ns generalizing db with
  | nil => exact ⟨[], .outline (fun _ => .ok ⟨[], none⟩) fun _ => rfl, rfl⟩
  | cons n ns ih =>
    obtain ⟨first, hfirst, hrows⟩ := visits_pageRows file locking txn n db
    rw [drainPages_cons, Cursor.drainPages]
    rcases hrun : (Cursor.pageRows locking file txn n).run db with ⟨e | rows, mid⟩
    · rw [hrun] at hrows
      have hstep : (Action.step (Cursor.pageRows locking file txn n).run).run db =
          (.ok (.error e), mid) := by rw [Action.run_step, hrun]
      have hnone : Visits locking txn
          (pure ⟨[], some e⟩ : Action (Database σ) Cursor.Yield) mid [] :=
        .outline (fun _ => .ok ⟨[], some e⟩) fun _ => rfl
      refine ⟨first ++ [], .bind hfirst.attempt hstep hnone, ?_⟩
      rw [List.append_nil, hrows]
      rfl
    · rw [hrun] at hrows
      obtain ⟨rest, hrest, hyield⟩ := ih mid
      have hstep : (Action.step (Cursor.pageRows locking file txn n).run).run db =
          (.ok (.ok rows), mid) := by rw [Action.run_step, hrun]
      have hlast : Visits locking txn ((fun rest : Cursor.Yield =>
            (⟨rows ++ rest.rows, rest.failure⟩ : Cursor.Yield)) <$>
          Action.step (Cursor.drainPages locking file txn ns)) mid (rest ++ []) :=
        .bind hrest rfl (.outline (fun _ => .ok _) fun _ => rfl)
      refine ⟨first ++ (rest ++ []), .bind hfirst.attempt hstep hlast, ?_⟩
      show rows ++ (Cursor.drainPages locking file txn ns mid).1.rows = _
      rw [hyield, List.append_nil, Visit.rows, Visit.rows, List.flatMap_append]
      congr 1
      exact hrows.symm

theorem step_scan_eq (locking : LockManager σ) (txn : TxnId) :
    Action.step (scan locking file txn) =
      .ask (fun db => (Cursor.new file txn).pagesLeft db.volume) >>= fun ns =>
        (fun rest : Cursor.Yield => (⟨[] ++ rest.rows, rest.failure⟩ : Cursor.Yield)) <$>
          .step (Cursor.drainPages locking file txn ns) := rfl

theorem visits_scan (locking : LockManager σ) (txn : TxnId) (db : Database σ) :
    ∃ visits, Visits locking txn (.step (scan locking file txn)) db visits ∧
      (scan locking file txn db).1.rows = Visit.rows visits := by
  obtain ⟨visits, hvisits, hrows⟩ := visits_drainPages file locking txn
    ((Cursor.new file txn).pagesLeft db.volume) db
  have hpages : Visits locking txn
      (.ask fun db : Database σ => (Cursor.new file txn).pagesLeft db.volume) db [] :=
    .outline (fun o => .ok (List.range' 0 (o.length file.path / file.pageSize - 0))) fun _ => rfl
  rw [step_scan_eq]
  refine ⟨_, .bind hpages rfl (.bind hvisits rfl (.outline (fun _ => .ok _) fun _ => rfl)), ?_⟩
  rw [List.nil_append, List.append_nil, ← hrows]
  rfl

theorem visits_scanTable (locking : LockManager σ) (txn : TxnId) (table : TableId)
    (db : Database σ) :
    ∃ visits, Visits locking txn (scanTable locking txn table) db visits ∧
      ∀ yielded after, (scanTable locking txn table).run db = (.ok yielded, after) →
        yielded.rows = Visit.rows visits := by
  have hlookup : Visits locking txn (lookup (σ := σ) table) db [] :=
    .outline (fun o => o.catalog.registration table) fun _ => rfl
  cases hr : db.catalog.registration table with
  | error e =>
    have hfail : (lookup (σ := σ) table).run db = (.error e, db) := by
      rw [lookup, Action.run_query, hr]
    refine ⟨_, .ended hlookup hfail, ?_⟩
    intro yielded after hrun
    rw [scanTable, Action.run_bind_of_error hfail] at hrun
    cases hrun
  | ok r =>
    have hfound : (lookup (σ := σ) table).run db = (.ok r, db) := by
      rw [lookup, Action.run_query, hr]
    obtain ⟨visits, hvisits, hrows⟩ := visits_scan r.file locking txn db
    refine ⟨_, .bind hlookup hfound hvisits, ?_⟩
    intro yielded after hrun
    rw [scanTable, Action.run_bind_of_ok hfound] at hrun
    obtain rfl := Except.ok.inj (Prod.mk.inj hrun).1
    exact hrows

end Database

/-! ## Reading through a cursor -/

namespace Cursor

variable {σ α β : Type} {locking : LockManager σ} {txn : TxnId}

/-- An action on a cursor and its database, as an action on the database alone. -/
def onDatabase (c : Cursor) (x : Action (Cursor × Database σ) α) :
    Action (Database σ) (Except StorageError α × Cursor) :=
  .step fun db => (((x.run (c, db)).1, (x.run (c, db)).2.1), (x.run (c, db)).2.2)

/-- With any cursor of the transaction, the pages that an action sees can be listed, and the rows
that it yields or leaves in the buffer were in the buffer before, or are on these pages. -/
def Reads (locking : LockManager σ) (txn : TxnId) (x : Action (Cursor × Database σ) α)
    (yields : α → List Row) : Prop :=
  ∀ (c : Cursor) (db : Database σ), c.txn = txn →
    ∃ visits, Visits locking txn (c.onDatabase x) db visits ∧ (x.run (c, db)).2.1.txn = txn ∧
      (∀ row ∈ (x.run (c, db)).2.1.buffered, row ∈ c.buffered ∨ row ∈ Visit.rows visits) ∧
      ∀ a, (x.run (c, db)).1 = .ok a → ∀ row ∈ yields a,
        row ∈ c.buffered ∨ row ∈ Visit.rows visits

namespace Reads

variable {x : Action (Cursor × Database σ) α} {yields : α → List Row}

/-- An action that sees no page. -/
theorem blind (answer : Cursor → Outline → Except StorageError α) (next : Cursor → Cursor)
    (h : ∀ c db, x.run (c, db) = (answer c db.outline, next c, db))
    (htxn : ∀ c, (next c).txn = c.txn) (hbuffer : ∀ c, ∀ row ∈ (next c).buffered, row ∈ c.buffered)
    (hyields : ∀ c o a, answer c o = .ok a → ∀ row ∈ yields a, row ∈ c.buffered) :
    Reads locking txn x yields := by
  intro c db hc
  have hblind : Visits locking txn (c.onDatabase x) db [] := by
    refine .outline (fun o => .ok (answer c o, next c)) fun db => ?_
    rw [onDatabase, Action.run_step, h]
  refine ⟨[], hblind, ?_, ?_, ?_⟩
  · rw [h, ← hc]
    exact htxn c
  · intro row hrow
    rw [h] at hrow
    exact .inl (hbuffer c row hrow)
  · intro a ha row hrow
    rw [h] at ha
    exact .inl (hyields c _ a ha row hrow)

theorem onDatabase_bind (c : Cursor) (x : Action (Cursor × Database σ) α)
    (f : α → Action (Cursor × Database σ) β) :
    c.onDatabase (x >>= f) = c.onDatabase x >>= fun result =>
      match result.1 with
      | .ok a => result.2.onDatabase (f a)
      | .error e => pure (.error e, result.2) := by
  refine Action.ext_run fun db => ?_
  rw [Action.run_bind]
  simp only [onDatabase, Action.run_step, Action.run_bind]
  rcases x.run (c, db) with ⟨e | a, c', db'⟩ <;> rfl

theorem bind {f : α → Action (Cursor × Database σ) β} {yields' : β → List Row}
    (hx : Reads locking txn x yields) (hf : ∀ a, Reads locking txn (f a) yields') :
    Reads locking txn (x >>= f) yields' := by
  intro c db hc
  obtain ⟨earlier, hearlier, htxn, hbuffer, -⟩ := hx c db hc
  have hdatabase : (c.onDatabase x).run db =
      (.ok ((x.run (c, db)).1, (x.run (c, db)).2.1), (x.run (c, db)).2.2) := rfl
  rw [onDatabase_bind]
  rcases hrun : x.run (c, db) with ⟨e | a, c', mid⟩
  · rw [hrun] at hdatabase htxn hbuffer
    have hstop : Visits locking txn
        (pure (.error e, c') : Action (Database σ) (Except StorageError β × Cursor)) mid [] :=
      .outline (fun _ => .ok (.error e, c')) fun _ => rfl
    rw [Action.run_bind_of_error hrun]
    refine ⟨_, .bind hearlier hdatabase hstop, htxn, ?_, by simp⟩
    rwa [List.append_nil]
  · rw [hrun] at hdatabase htxn hbuffer
    obtain ⟨later, hlater, htxn', hbuffer', hyields'⟩ := hf a c' mid htxn
    have hsource (row : Row) (hrow : row ∈ c'.buffered ∨ row ∈ Visit.rows later) :
        row ∈ c.buffered ∨ row ∈ Visit.rows (earlier ++ later) := by
      rw [Visit.rows, List.flatMap_append, List.mem_append]
      rcases hrow with hrow | hrow
      · exact (hbuffer row hrow).imp_right .inl
      · exact .inr (.inr hrow)
    rw [Action.run_bind_of_ok hrun]
    exact ⟨_, .bind hearlier hdatabase hlater, htxn',
      fun row hrow => hsource row (hbuffer' row hrow),
      fun b hb row hrow => hsource row (hyields' b hb row hrow)⟩

theorem map (hx : Reads locking txn x yields) (f : α → β) {yields' : β → List Row}
    (hf : ∀ a, yields' (f a) = yields a) : Reads locking txn (f <$> x) yields' := by
  intro c db hc
  obtain ⟨visits, hvisits, htxn, hbuffer, hyields⟩ := hx c db hc
  have hdatabase : c.onDatabase (f <$> x) =
      c.onDatabase x >>= fun result => pure (result.1.map f, result.2) := by
    refine Action.ext_run fun db => ?_
    simp only [onDatabase, Action.run_bind, Action.run_step, Action.run_map, Action.run_pure]
  refine ⟨visits ++ [], ?_, ?_⟩
  · rw [hdatabase]
    exact .bind hvisits rfl (.outline (fun _ => .ok _) fun _ => rfl)
  · rw [Action.run_map, List.append_nil]
    refine ⟨htxn, hbuffer, ?_⟩
    intro b hb row hrow
    cases ha : (x.run (c, db)).1 with
    | error e =>
      rw [ha] at hb
      cases hb
    | ok a =>
      rw [ha] at hb
      obtain rfl := Except.ok.inj hb
      exact hyields a ha row (hf a ▸ hrow)

/-- What becomes of a failure does not matter. -/
theorem attempt (hx : Reads locking txn x yields) :
    Reads locking txn (.step x.run) fun result => result.toOption.elim [] yields := by
  intro c db hc
  obtain ⟨visits, hvisits, htxn, hbuffer, hyields⟩ := hx c db hc
  have hdatabase : c.onDatabase (.step x.run) =
      c.onDatabase x >>= fun result => pure (.ok result.1, result.2) := rfl
  refine ⟨visits ++ [], ?_, htxn, by rwa [List.append_nil], ?_⟩
  · rw [hdatabase]
    exact .bind hvisits rfl (.outline (fun _ => .ok _) fun _ => rfl)
  · rintro result hresult row hrow
    obtain rfl := Except.ok.inj hresult
    rw [List.append_nil]
    cases ha : (x.run (c, db)).1 with
    | error e =>
      rw [ha] at hrow
      cases hrow
    | ok a =>
      rw [ha] at hrow
      exact hyields a ha row hrow

end Reads

variable (locking) (txn)

theorem reads_turn (n : Nat) : Reads locking txn (turn locking n) fun _ => [] := by
  rintro c db rfl
  obtain ⟨visits, hvisits, hrows⟩ := Database.visits_pageRows c.file locking c.txn n db
  have hdatabase : c.onDatabase (turn locking n) = .step (pageRows locking c.file c.txn n).run >>=
      fun result => match result with
        | .ok rows => pure (.ok (), { c with nextPage := n + 1, buffered := rows })
        | .error e => pure (.error e, c) := by
    refine Action.ext_run fun db => ?_
    rw [Action.run_bind]
    simp only [onDatabase, turn, Action.run_step]
    rcases (pageRows locking c.file c.txn n).run db with ⟨e | rows, db'⟩ <;> rfl
  rw [hdatabase]
  rcases hpage : (pageRows locking c.file c.txn n).run db with ⟨e | rows, mid⟩
  · have hstep : (Action.step (pageRows locking c.file c.txn n).run).run db =
        (.ok (.error e), mid) := by rw [Action.run_step, hpage]
    have hrun : (turn locking n).run (c, db) = (.error e, c, mid) := by simp only [turn, hpage]
    refine ⟨visits ++ [], .bind hvisits.attempt hstep (.outline (fun _ => .ok _) fun _ => rfl),
      ?_, ?_, by simp⟩
    · rw [hrun]
    · rw [hrun]
      exact fun row hrow => .inl hrow
  · have hstep : (Action.step (pageRows locking c.file c.txn n).run).run db =
        (.ok (.ok rows), mid) := by rw [Action.run_step, hpage]
    have hrun : (turn locking n).run (c, db) =
        (.ok (), { c with nextPage := n + 1, buffered := rows }, mid) := by simp only [turn, hpage]
    rw [hpage] at hrows
    refine ⟨visits ++ [], .bind hvisits.attempt hstep (.outline (fun _ => .ok _) fun _ => rfl),
      ?_, ?_, by simp⟩
    · rw [hrun]
    · rw [hrun, List.append_nil, hrows]
      exact fun row hrow => .inr hrow

theorem reads_advance (ns : List Nat) : Reads locking txn (advance locking ns) fun _ => [] := by
  induction ns with
  | nil =>
    exact .blind (fun c _ => .ok !c.buffered.isEmpty) id (fun _ _ => rfl) (fun _ => rfl)
      (fun _ _ hrow => hrow) (by simp)
  | cons n ns ih =>
    have hempty : Reads locking txn
        (.ask fun s : Cursor × Database σ => s.1.buffered.isEmpty) fun _ => [] :=
      .blind (fun c _ => .ok c.buffered.isEmpty) id (fun _ _ => rfl) (fun _ => rfl)
        (fun _ _ hrow => hrow) (by simp)
    refine hempty.bind fun empty => ?_
    split
    · exact (reads_turn locking txn n).bind fun _ => ih
    · exact .blind (fun _ _ => .ok true) id (fun _ _ => rfl) (fun _ => rfl)
        (fun _ _ hrow => hrow) (by simp)

theorem reads_hasNext : Reads locking txn (hasNext locking) fun _ => [] := by
  have hclosed : Reads locking txn (.ask fun s : Cursor × Database σ => s.1.closed) fun _ => [] :=
    .blind (fun c _ => .ok c.closed) id (fun _ _ => rfl) (fun _ => rfl) (fun _ _ hrow => hrow)
      (by simp)
  refine hclosed.bind fun closed => ?_
  split
  · exact .blind (fun _ _ => .ok false) id (fun _ _ => rfl) (fun _ => rfl)
      (fun _ _ hrow => hrow) (by simp)
  · have hleft : Reads locking txn
        (.ask fun s : Cursor × Database σ => s.1.pagesLeft s.2.volume) fun _ => [] :=
      .blind (fun c o => .ok (List.range' c.nextPage
          (o.length c.file.path / c.file.pageSize - c.nextPage))) id (fun _ _ => rfl)
        (fun _ => rfl) (fun _ _ hrow => hrow) (by simp)
    exact hleft.bind (reads_advance locking txn)

theorem reads_takeBuffered :
    Reads locking txn (takeBuffered (σ := σ)) fun row => [row] := by
  refine .blind (fun c _ => c.buffered.head?.elim (.error .endOfRows) .ok)
    (fun c => { c with buffered := c.buffered.tail }) ?_ (fun _ => rfl) ?_ ?_
  · rintro ⟨file, txn, n, buffered, closed⟩ db
    cases buffered <;> rfl
  · exact fun c row hrow => List.mem_of_mem_tail hrow
  · intro c o a ha row hrow
    cases hb : c.buffered with
    | nil => simp [hb] at ha
    | cons r rs =>
      obtain rfl : r = a := by simpa [hb] using ha
      rw [List.mem_singleton.1 hrow]
      exact List.mem_cons_self

theorem reads_nextRow : Reads locking txn (nextRow locking) fun row => [row] := by
  refine (reads_hasNext locking txn).bind fun more => ?_
  split
  · exact reads_takeBuffered locking txn
  · exact .blind (fun _ _ => .error .endOfRows) id (fun _ _ => rfl) (fun _ => rfl)
      (fun _ _ hrow => hrow) (by simp)

/-- Asking for the next row, or for the end, is asking whether there is a row and fetching it. -/
theorem next?_eq : next? locking = .step (hasNext (σ := σ) locking).run >>= fun more =>
    match more with
    | .ok true => some <$> nextRow locking
    | .ok false => pure none
    | .error e => ⟨fun s => (.error e, s.1.close, s.2)⟩ := by
  refine Action.ext_run fun s => ?_
  rw [Action.run_bind, Action.run_step]
  simp only [next?]
  rcases (hasNext locking).run s with ⟨e | more, c, db⟩
  · rfl
  · cases more <;> rfl

theorem reads_next? : Reads locking txn (next? locking) Option.toList := by
  rw [next?_eq]
  refine (reads_hasNext locking txn).attempt.bind fun more => ?_
  split
  · exact (reads_nextRow locking txn).map some fun _ => rfl
  · exact .blind (fun _ _ => .ok none) id (fun _ _ => rfl) (fun _ => rfl)
      (fun _ _ hrow => hrow) (by simp)
  · next e =>
    exact .blind (fun _ _ => .error e) close (fun _ _ => rfl) (fun _ => rfl) (by simp [close])
      (by simp)

end Cursor

end RowStore
