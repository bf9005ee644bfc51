import RowStore.Proofs.Database.Current

/-!
# Which row goes

A deletion looks at the pages of the file one after another and takes the first that holds the row:
values of the same types, whatever the columns are called and whatever place the row names. On that
page it empties the slot that the row names, if the row names this page and the slot holds the row,
and the lowest slot that holds the row otherwise. What looking for the row and taking it out call
the same row is the same, so a page on which the row was seen gives it up.
-/

namespace RowStore

namespace Page

/-- Some slot holds the row. -/
def Has (p : Page) (row : Row) : Prop := ∃ slot, p.HoldsAt row slot

variable {p q : Page} {row removed : Row}

theorem has_iff : p.rows.any (fun s => s.Same row) = true ↔ p.Has row := by
  simp only [List.any_eq_true, mem_rows, decide_eq_true_eq, Has, HoldsAt]
  exact ⟨fun ⟨s, ⟨i, hi⟩, hs⟩ => ⟨i, s, hi, hs⟩, fun ⟨i, s, hi, hs⟩ => ⟨s, ⟨i, hi⟩, hs⟩⟩

/-- Whether a slot holds a row can be told by what its row tells. -/
theorem HoldsAt.congr {slot : Nat} (h : p.HoldsAt row slot)
    (hfacts : (p.row? slot).map Row.facts = (q.row? slot).map Row.facts) :
    q.HoldsAt row slot := by
  obtain ⟨s, hs, hsame⟩ := h
  rw [hs, Option.map_some] at hfacts
  obtain ⟨t, ht, htells⟩ := Option.map_eq_some_iff.1 hfacts.symm
  simp only [Row.facts, Prod.mk.injEq] at htells
  exact ⟨t, ht, htells.1.trans hsame.1, htells.2.1.trans hsame.2⟩

theorem Has.congr (h : p.Has row)
    (hfacts : ∀ i, (p.row? i).map Row.facts = (q.row? i).map Row.facts) : q.Has row :=
  h.imp fun slot hslot => hslot.congr (hfacts slot)

/-- Which slot a page gives up can be told by what its rows tell. -/
theorem Gives.congr {slot : Nat} (h : p.Gives row slot) (hid : p.id = q.id)
    (hfacts : ∀ i, (p.row? i).map Row.facts = (q.row? i).map Row.facts) : q.Gives row slot := by
  cases h with
  | named hplace hholds => exact .named (hid ▸ hplace) (hholds.congr (hfacts slot))
  | lowest hnot hholds hbelow =>
    refine .lowest ?_ (hholds.congr (hfacts slot)) ?_
    · intro k hplace hk
      exact hnot k (hid ▸ hplace) (hk.congr (hfacts k).symm)
    · intro i hi hk
      exact hbelow i hi (hk.congr (hfacts i).symm)

/-- A deletion empties the slot that the page gives up, and the row forgets its place. -/
theorem Sound.delete_gives (h : p.Sound) (hq : p.delete row = .ok (q, removed)) :
    ∃ slot, p.Gives row slot ∧ slot < p.slots.length ∧ removed = { row with place := none } ∧
      q = { p with header := q.header, slots := p.slots.set slot none } := by
  obtain ⟨slot, hslot, rfl, rfl⟩ := delete_eq_ok.1 hq
  have hgives := gives_of_slotOf? hslot
  obtain ⟨s, hs, -⟩ := hgives.holdsAt
  exact ⟨slot, hgives, h.length_eq ▸ h.slot_lt hs, rfl, rfl⟩

end Page

namespace Database

variable {σ : Type} {locking : LockManager σ} {txn : TxnId} {row : Row} {r : Registration}
  {n : Nat} {change : Change} {start db mid db' : Database σ}

/-- Whether all fetches of a deletion succeed, which goes through pages until it finds the row. -/
def fetchesSucceed (locking : LockManager σ) (file : TableFile) (txn : TxnId) (row : Row) :
    List Nat → Database σ → Bool
  | [], _ => true
  | n :: ns, db =>
    match (fetch locking txn (file.pageAt n) .readOnly []).run db with
    | (.error _, _) => false
    | (.ok seen, mid) =>
      if seen.page.rows.any (fun r => r.Same row) then
        match (fetch locking txn (file.pageAt n) .readWrite []).run mid with
        | (.error _, _) => false
        | (.ok frame, after) =>
          match frame.page.delete row with
          | .error .rowNotFound => fetchesSucceed locking file txn row ns after
          | _ => true
      else fetchesSucceed locking file txn row ns mid

/-- The page at a position holds the row. -/
def HeldAt (db : Database σ) (file : TableFile) (row : Row) (n : Nat) : Prop :=
  ∃ p, db.current? (file.pageAt n) = some p ∧ p.Has row

/-- The page at a position gave up the row, and nothing else changed. -/
structure RemovedAt (txn : TxnId) (r : Registration) (row : Row) (n : Nat) (change : Change)
    (db db' : Database σ) : Prop where
  revised : ∃ slot before, db.current? (r.file.pageAt n) = some before ∧ before.Gives row slot ∧
    Revised txn (r.file.pageAt n) slot none change.handle before db db'
  row_eq : change.row = { row with place := none }
  volume_eq : db'.volume = db.volume

theorem RemovedAt.heldAt (h : RemovedAt txn r row n change db db') : db.HeldAt r.file row n := by
  obtain ⟨slot, before, hbefore, hgives, -⟩ := h.revised
  exact ⟨before, hbefore, slot, hgives.holdsAt⟩

/-- The page that a database shows can stand for the one that it has. -/
theorem Coherent.heldAt_iff {p : Page} (h : db.Coherent)
    (hr : db.catalog.registration r.file.id = .ok r) (hp : p.BelongsTo r.file)
    (hid : p.id = r.file.pageAt n) (hcells : db.view.cells? (r.file.pageAt n) = some p.cells) :
    db.HeldAt r.file row n ↔ p.rows.any (fun s => s.Same row) = true := by
  rw [Page.has_iff]
  obtain ⟨q, hq, hb, hqid, hsame⟩ := h.current?_belongsTo hr hcells
  have hfacts := hb.row?_facts_eq hp (hqid.trans hid.symm) hsame
  constructor
  · rintro ⟨q', hq', hhas⟩
    obtain rfl := Option.some.inj (hq.symm.trans hq')
    exact hhas.congr hfacts
  · intro hhas
    exact ⟨q, hq, hhas.congr fun i => (hfacts i).symm⟩

/-- A page on which the row was seen gives it up when it is fetched again, for writing. -/
theorem Fetched.removedAt {seen frame : Frame} (h : start.Coherent) (hquiet : Quiet start db)
    (hr : start.catalog.registration r.file.id = .ok r)
    (hseen : start.view.cells? (r.file.pageAt n) = some seen.page.cells)
    (hin : seen.page.BelongsTo r.file)
    (hany : seen.page.rows.any (fun s => s.Same row) = true)
    (hf : Fetched txn (r.file.pageAt n) .readWrite db frame mid) :
    ∃ q removed after, frame.page.delete row = .ok (q, removed) ∧
      (Database.keepPage txn frame q).run mid = (.ok (), after) ∧
      RemovedAt txn r row n ⟨removed, frame.handle⟩ start after := by
  have hr' : db.catalog.registration r.file.id = .ok r := hquiet.catalog_eq ▸ hr
  have hshows : start.view.cells? (r.file.pageAt n) = some frame.page.cells :=
    hquiet.view_eq ▸ hf.shows
  obtain ⟨htypes, hmem⟩ := hin.sound.any_same.1 hany
  obtain ⟨q, removed, after, hdelete, hkeep, -⟩ := hf.delete row hr' (hin.schema_eq ▸ htypes)
    (Option.some.inj (hseen.symm.trans hshows) ▸ hmem)
  obtain ⟨hb, hid⟩ := hf.belongs hr'
  obtain ⟨slot, hgives, hlt, rfl, hq⟩ := hb.sound.delete_gives hdelete
  obtain ⟨before, hbefore, hbelongs, hbid, hsame⟩ := h.current?_belongsTo hr hshows
  have hids : frame.page.id = before.id := hid.trans hbid.symm
  refine ⟨q, _, after, hdelete, hkeep, ⟨slot, before, hbefore, ?_, ?_⟩, rfl, ?_⟩
  · exact hgives.congr hids (hb.row?_facts_eq hbelongs hids hsame.symm)
  · exact hf.revised h (hquiet.beside _) hr' hbelongs hbid (hsame ▸ hf.shows)
      (hb.sound.delete hdelete) hlt hq hkeep
  · obtain ⟨-, rfl⟩ := Prod.mk.inj hkeep
    exact hf.volume_eq.trans hquiet.volume_eq

/-- How a deletion ends that goes through these pages: it passed all of them without finding the
row, or a fetch failed, or it took the row from the first page that holds it. -/
inductive Removal (locking : LockManager σ) (txn : TxnId) (r : Registration) (row : Row)
    (first count : Nat) (start db db' : Database σ) : Except StorageError Change → Prop
  | absent : (∀ m, first ≤ m → m < first + count → ¬ start.HeldAt r.file row m) →
      Removal locking txn r row first count start db db' (.error .rowNotFound)
  | failed {e : StorageError} :
      fetchesSucceed locking r.file txn row (List.range' first count) db = false →
      Removal locking txn r row first count start db db' (.error e)
  | removed {change : Change} (n : Nat) : first ≤ n → n < first + count →
      (∀ m, first ≤ m → m < n → ¬ start.HeldAt r.file row m) →
      RemovedAt txn r row n change start db' →
      Removal locking txn r row first count start db db' (.ok change)

/-- A page that does not hold the row is passed. -/
theorem Removal.pass {first count : Nat} {answer : Except StorageError Change}
    (h : Removal locking txn r row (first + 1) count start mid db' answer)
    (hfirst : ¬ start.HeldAt r.file row first)
    (hfetches : fetchesSucceed locking r.file txn row (List.range' first (count + 1)) db =
      fetchesSucceed locking r.file txn row (List.range' (first + 1) count) mid) :
    Removal locking txn r row first (count + 1) start db db' answer := by
  have hpast {m limit : Nat} (hlater : ∀ m, first + 1 ≤ m → m < limit →
      ¬ start.HeldAt r.file row m) (hle : first ≤ m) (hlt : m < limit) :
      ¬ start.HeldAt r.file row m := by
    rcases Nat.eq_or_lt_of_le hle with rfl | hlt'
    · exact hfirst
    · exact hlater m hlt' hlt
  cases h with
  | absent hlater =>
    exact .absent fun m hle hlt => hpast (fun k hle hlt => hlater k hle (by omega)) hle hlt
  | failed hfailed => exact .failed (hfetches.trans hfailed)
  | removed n hle hlt hlater hn =>
    exact .removed n (by omega) (by omega) (fun m => hpast hlater) hn

/-- Nothing changes until the row is found. -/
theorem Coherent.removal {first count : Nat} {answer : Except StorageError Change}
    (h : start.Coherent) (hr : start.catalog.registration r.file.id = .ok r)
    (hquiet : Quiet start db)
    (hrun : (Database.deleteAmong locking r.file txn row (List.range' first count)).run db =
      (answer, db')) : Removal locking txn r row first count start db db' answer := by
  induction count generalizing first db with
  | zero =>
    obtain ⟨rfl, rfl⟩ := Prod.mk.inj hrun
    exact .absent fun m hle hlt => by omega
  | succ count ih =>
    rcases hfetch : (Database.fetch locking txn (r.file.pageAt first) .readOnly []).run db with
      ⟨fetched, mid⟩
    simp only [List.range'_succ, Database.deleteAmong, Action.run_bind, hfetch] at hrun
    rcases hquiet.coherent.fetch hfetch with ⟨e, rfl, -⟩ | ⟨seen, rfl, hf⟩
    · obtain ⟨rfl, rfl⟩ := Prod.mk.inj hrun
      exact .failed (by simp [List.range'_succ, fetchesSucceed, hfetch])
    have hmid := hquiet.trans (.of_fetched hf)
    obtain ⟨hb, hid⟩ := hf.belongs (hquiet.catalog_eq ▸ hr)
    have hseen : start.view.cells? (r.file.pageAt first) = some seen.page.cells :=
      hquiet.view_eq ▸ hf.shows
    simp only at hrun
    split at hrun
    · next hany =>
      rcases hagain : (Database.fetch locking txn (r.file.pageAt first) .readWrite []).run mid with
        ⟨result, after⟩
      simp only [Action.run_bind, hagain] at hrun
      rcases hf.coherent.fetch hagain with ⟨e, rfl, -⟩ | ⟨frame, rfl, hw⟩
      · obtain ⟨rfl, rfl⟩ := Prod.mk.inj hrun
        exact .failed (by simp [List.range'_succ, fetchesSucceed, hfetch, hany, hagain])
      · obtain ⟨q, removed, last, hdelete, hkeep, hremoved⟩ :=
          hw.removedAt h hmid hr hseen hb hany
        simp only [hdelete, Action.run_bind, hkeep] at hrun
        obtain ⟨rfl, rfl⟩ := Prod.mk.inj hrun
        exact .removed first (Nat.le_refl _) (by omega) (fun m _ _ => by omega) hremoved
    · next hnone =>
      refine (ih hmid hrun).pass (fun hheld => hnone ((h.heldAt_iff hr hb hid hseen).1 hheld)) ?_
      simp [List.range'_succ, fetchesSucceed, hfetch, hnone]

namespace Removal

variable {count : Nat} {answer : Except StorageError Change}

theorem first (h : Removal locking txn r row 0 count start db db' (.ok change)) :
    ∃ n, n < count ∧ (∀ m, m < n → ¬ start.HeldAt r.file row m) ∧
      RemovedAt txn r row n change start db' := by
  cases h with
  | removed n _ hlt hbelow hn => exact ⟨n, by omega, fun m => hbelow m (Nat.zero_le m), hn⟩

variable (h : Removal locking txn r row 0 count start db db' answer)
  (hsucceed : fetchesSucceed locking r.file txn row (List.range' 0 count) db = true)

include h hsucceed

theorem notFound_iff :
    answer = .error .rowNotFound ↔ ∀ n, n < count → ¬ start.HeldAt r.file row n := by
  cases h with
  | absent hnone => exact iff_of_true rfl fun n hlt => hnone n (Nat.zero_le n) (by omega)
  | failed hfailed => simp [hfailed] at hsucceed
  | removed n _ hlt _ hn =>
    refine iff_of_false (fun he => ?_) fun hnone => hnone n (by omega) hn.heldAt
    cases he

theorem ok_iff : (∃ change, answer = .ok change) ↔ ∃ n, n < count ∧ start.HeldAt r.file row n := by
  cases h with
  | absent hnone =>
    refine iff_of_false ?_ ?_
    · rintro ⟨change, ⟨⟩⟩
    · rintro ⟨n, hlt, hn⟩
      exact hnone n (Nat.zero_le n) (by omega) hn
  | failed hfailed => simp [hfailed] at hsucceed
  | removed n _ hlt _ hn => exact iff_of_true ⟨_, rfl⟩ ⟨n, by omega, hn.heldAt⟩

end Removal

end Database

/-- Deleting from the file of a table, in any state that is reached. If it succeeds, the row was
taken from the first page that holds it. If all its fetches succeed, it fails just if no page holds
the row, and says so, whatever place the row names. -/
theorem Reaches.deletion_takes_first_match {σ : Type} {locking : LockManager σ}
    {start db : Database σ} {table : TableId} {r : Registration} (hfresh : start.Fresh)
    (hreach : Reaches locking start db) (hr : db.catalog.registration table = .ok r)
    (txn : TxnId) (row : Row) :
    (∀ change db', (Database.deleteRow locking r.file txn row).run db = (.ok change, db') →
        ∃ n, n < r.file.pageCount db.volume ∧ (∀ m, m < n → ¬ db.HeldAt r.file row m) ∧
          Database.RemovedAt txn r row n change db db') ∧
      (Database.fetchesSucceed locking r.file txn row
          (List.range (r.file.pageCount db.volume)) db = true →
        (((Database.deleteRow locking r.file txn row).run db).1 = .error .rowNotFound ↔
          ∀ n, n < r.file.pageCount db.volume → ¬ db.HeldAt r.file row n) ∧
        ((∃ change, ((Database.deleteRow locking r.file txn row).run db).1 = .ok change) ↔
          ∃ n, n < r.file.pageCount db.volume ∧ db.HeldAt r.file row n)) := by
  have h := hreach.coherent hfresh
  obtain rfl := h.tables.id_eq table r hr
  have hended (answer : Except StorageError Change) (db' : Database σ)
      (hrun : (Database.deleteRow locking r.file txn row).run db = (answer, db')) :
      Database.Removal locking txn r row 0 (r.file.pageCount db.volume) db db db' answer := by
    rw [Database.deleteRow, Database.positions, Action.run_bind, Action.run_ask,
      List.range_eq_range'] at hrun
    exact h.removal hr (.refl h) hrun
  refine ⟨fun change db' hrun => (hended _ db' hrun).first, fun hsucceed => ?_⟩
  rw [List.range_eq_range'] at hsucceed
  exact ⟨(hended _ _ rfl).notFound_iff hsucceed, (hended _ _ rfl).ok_iff hsucceed⟩

/-- The same number three times, twice on the first page. A row that names the second slot of that
page is taken from there; one that names a slot of the other page is taken from the first slot of
the first page, although the other page holds it where the row says; and a number that was never
stored is not found. -/
theorem Reaches.deletion_takes_first_match_duplicates :
    ∃ (db db₁ db₂ : Database Unit) (r : Registration) (near far : Change),
      Reaches .permissive (Database.ofTable Database.numbers 9 1) db ∧
        db.catalog.registration (TableFile.idOf ["t"]) = .ok r ∧
        r.file.pageCount db.volume = 2 ∧
        (Database.deleteRow .permissive r.file ⟨2⟩ ⟨⟨[⟨.int, some "id"⟩]⟩, [.int 5],
          some ⟨⟨TableFile.idOf ["t"], 0⟩, 1⟩⟩).run db = (.ok near, db₁) ∧
        ((db₁.current? ⟨TableFile.idOf ["t"], 0⟩).map fun p => p.slots.map Option.isSome) =
          some [true, false] ∧
        (∃ n, n < 2 ∧ Database.RemovedAt ⟨2⟩ r ⟨⟨[⟨.int, some "id"⟩]⟩, [.int 5],
          some ⟨⟨TableFile.idOf ["t"], 0⟩, 1⟩⟩ n near db db₁) ∧
        (Database.deleteRow .permissive r.file ⟨2⟩ ⟨⟨[⟨.int, some "id"⟩]⟩, [.int 5],
          some ⟨⟨TableFile.idOf ["t"], 1⟩, 0⟩⟩).run db = (.ok far, db₂) ∧
        ((db₂.current? ⟨TableFile.idOf ["t"], 0⟩).map fun p => p.slots.map Option.isSome) =
          some [false, true] ∧
        (∃ n, n < 2 ∧ Database.RemovedAt ⟨2⟩ r ⟨⟨[⟨.int, some "id"⟩]⟩, [.int 5],
          some ⟨⟨TableFile.idOf ["t"], 1⟩, 0⟩⟩ n far db db₂) ∧
        ((Database.deleteRow .permissive r.file ⟨2⟩ (Database.number 8).val).run db).1 =
          .error .rowNotFound ∧
        ∀ n, n < 2 → ¬ db.HeldAt r.file (Database.number 8).val n := by
  let r : Registration :=
    ⟨⟨["t"], TableFile.idOf ["t"], Database.numbers, 9⟩, "t", "", .none⟩
  let played := Database.play .permissive [] (Database.ofTable Database.numbers 9 1)
    [.insert ⟨1⟩ (TableFile.idOf ["t"]) (Database.number 5),
      .insert ⟨1⟩ (TableFile.idOf ["t"]) (Database.number 5),
      .complete ⟨1⟩ true,
      .insert ⟨1⟩ (TableFile.idOf ["t"]) (Database.number 5),
      .complete ⟨1⟩ true]
  let five (spot : RowId) : Row := ⟨⟨[⟨.int, some "id"⟩]⟩, [.int 5], some spot⟩
  let deleted (spot : RowId) :=
    (Database.deleteRow .permissive r.file ⟨2⟩ (five spot)).run played.2
  let emptied (spot : RowId) : Option (List Bool) :=
    ((deleted spot).2.current? ⟨TableFile.idOf ["t"], 0⟩).map fun p => p.slots.map Option.isSome
  have hfresh : (Database.ofTable Database.numbers 9 1).Fresh :=
    .ofTable (by decide) (by decide) rfl
  have hreach : Reaches .permissive (Database.ofTable Database.numbers 9 1) played.2 :=
    Reaches.of_run (Run.of_calls _ _ _ (by decide +kernel))
  have hr : played.2.catalog.registration (TableFile.idOf ["t"]) = .ok r := by decide +kernel
  have hcount : r.file.pageCount played.2.volume = 2 := by decide +kernel
  have htaken (spot : RowId) (hok : (deleted spot).1.toOption.isSome = true) :
      ∃ change, deleted spot = (.ok change, (deleted spot).2) ∧
        ∃ n, n < 2 ∧ Database.RemovedAt ⟨2⟩ r (five spot) n change played.2 (deleted spot).2 := by
    rcases hdeleted : deleted spot with ⟨_ | change, after⟩
    · rw [hdeleted] at hok
      cases hok
    · obtain ⟨n, hlt, -, hn⟩ := (hreach.deletion_takes_first_match hfresh hr ⟨2⟩ (five spot)).1
        change after hdeleted
      exact ⟨change, rfl, n, hcount ▸ hlt, hn⟩
  obtain ⟨near, hnear, hfirst⟩ := htaken ⟨⟨TableFile.idOf ["t"], 0⟩, 1⟩ (by decide +kernel)
  obtain ⟨far, hfar, hsecond⟩ := htaken ⟨⟨TableFile.idOf ["t"], 1⟩, 0⟩ (by decide +kernel)
  have hnear' : emptied ⟨⟨TableFile.idOf ["t"], 0⟩, 1⟩ = some [true, false] := by decide +kernel
  have hfar' : emptied ⟨⟨TableFile.idOf ["t"], 1⟩, 0⟩ = some [false, true] := by decide +kernel
  have hmissing : ((Database.deleteRow .permissive r.file ⟨2⟩ (Database.number 8).val).run
      played.2).1 = .error .rowNotFound := by decide +kernel
  have hsucceed : Database.fetchesSucceed .permissive r.file ⟨2⟩ (Database.number 8).val
      (List.range (r.file.pageCount played.2.volume)) played.2 = true := by decide +kernel
  have hnone := ((hreach.deletion_takes_first_match hfresh hr ⟨2⟩ (Database.number 8).val).2
    hsucceed).1.1 hmissing
  exact ⟨played.2, _, _, r, near, far, hreach, hr, hcount, hnear, hnear', hfirst, hfar, hfar',
    hsecond, hmissing, fun n hlt => hnone n (hcount ▸ hlt)⟩

end RowStore
