import RowStore.Proofs.Database.History
import RowStore.Proofs.File.Registrations

/-!
# Where a resident page comes from

A page is read by the registration that its table has at the time, and keeps the schema and the page
size of that registration for as long as it stays in memory. Meanwhile the table may be registered
anew, which does no harm if it is for the same use of the file; but it may be with another schema or
page size, or under a name that another table then takes. Until that happens a page is stored over
its own bytes. Once it has happened, a page of the old size is stored at its place among pages of
the new size.
-/

namespace RowStore

theorem Page.SameShape.trans {p q r : Page} (h : p.SameShape q) (h' : q.SameShape r) :
    p.SameShape r :=
  ⟨h.id_eq.trans h'.id_eq, h.schema_eq.trans h'.schema_eq, h.layout_eq.trans h'.layout_eq⟩

namespace Move

variable {σ : Type} {locking : LockManager σ} {m : Move σ}

/-- A move that takes a file from its table: the number of the table is given to a file that is
another one or is opened in another way, or the name that the table has by now to another table. -/
def Displaces (m : Move σ) (file : TableFile) : Prop :=
  ∃ s, m.deed = .register s ∧
    if s.file.id = file.id then ¬ s.file.Agrees file
    else m.before.catalog.idOf s.name = .ok file.id

/-- Any other move leaves the table with its file, though perhaps registered anew. -/
theorem Made.registration {file : TableFile} {r : Registration} (h : m.Made locking)
    (hpaired : m.before.catalog.Paired) (hr : m.before.catalog.registration file.id = .ok r)
    (hagrees : r.file.Agrees file) (hkeep : ¬ m.Displaces file) :
    ∃ s, m.after.catalog.registration file.id = .ok s ∧ s.file.Agrees file ∧
      (s = r ∨ m.deed = .register s) := by
  rcases h.catalog_cases with ⟨s, hdeed, hcatalog⟩ | ⟨-, hcatalog⟩
  · rw [hcatalog]
    by_cases hid : s.file.id = file.id
    · refine ⟨s, hid ▸ Catalog.registration_add_self _ s, ?_, .inr hdeed⟩
      by_contra hother
      exact hkeep ⟨s, hdeed, by rwa [if_pos hid]⟩
    · refine ⟨r, hpaired.registration_add_of_apart hr ?_, hagrees, .inl rfl⟩
      rintro (hsame | hname)
      · exact hid (hsame.trans hagrees.id_eq)
      · -- the name still leads to the table of the file
        refine hkeep ⟨s, hdeed, ?_⟩
        rw [if_neg hid, Catalog.idOf_eq_ok, hpaired.named]
        exact ⟨r, Catalog.registration_eq_ok.1 hr, hname.symm⟩
  · rw [hcatalog]
    exact ⟨r, hr, hagrees, .inl rfl⟩

/-- The move read a page from the file of a registration that its table had, and the page still has
the shape in which it was read. -/
structure Loads (m : Move σ) (r : Registration) (page : PageId) (p : Page) : Prop where
  loaded : m.loaded? = some page
  registered : m.before.catalog.registration page.table = .ok r
  read : ∃ q, r.file.readPage m.before.volume page = .ok q ∧ p.SameShape q

end Move

namespace Trace

variable {σ : Type} {locking : LockManager σ} {start db : Database σ} {moves : List (Move σ)}

theorem paired (h : Trace locking start moves db) (hstart : start.catalog.Paired) :
    db.catalog.Paired := by
  induction h with
  | nil => exact hstart
  | @cons _ m _ hmade ih =>
    rcases hmade.catalog_cases with ⟨s, -, hcatalog⟩ | ⟨-, hcatalog⟩
    · rw [hcatalog]
      exact ih.add s
    · rwa [hcatalog]

/-- Every resident page was read by a registration of its table, lies inside the file since, and its
table still has the file unless that was displaced. -/
theorem origin (h : Trace locking start moves db) {capacity : Nat}
    (hcache : start.cache = Cache.ofCapacity capacity) (hcatalog : start.catalog.Paired)
    {page : PageId} {frame : Frame} (hf : db.cache.frames.get? page = some frame) :
    ∃ (later : List (Move σ)) (m : Move σ) (earlier : List (Move σ)) (r : Registration),
      moves = later ++ m :: earlier ∧ (∀ l ∈ later, l.loaded? ≠ some page) ∧
      m.Loads r page frame.page ∧
      page.offset r.file.pageSize + r.file.pageSize ≤ db.volume.length r.file.path ∧
      ((∀ l ∈ later, ¬ l.Displaces r.file) →
        ∃ s, db.catalog.registration r.file.id = .ok s ∧ s.file.Agrees r.file ∧
          (s = r ∨ ∃ l ∈ later, l.deed = .register s)) := by
  induction h generalizing page frame with
  | nil =>
    rw [hcache] at hf
    cases hf
  | @cons moves m hmoves hmade ih =>
    have hgrows := hmade.writes.length_le
    have hpaired := hmoves.paired hcatalog
    rcases hmade.alters.source hf with ⟨old, hold, -, hshape⟩ | ⟨hloaded, -, p, hread, hshape⟩
    · obtain ⟨later, first, earlier, r, rfl, hlast, hloads, hinside, hkept⟩ := ih hold
      obtain ⟨q, hq, hqshape⟩ := hloads.read
      refine ⟨m :: later, first, earlier, r, rfl, List.forall_mem_cons.2 ⟨?_, hlast⟩,
        ⟨hloads.loaded, hloads.registered, q, hq, hshape.trans hqshape⟩,
        Nat.le_trans hinside (hgrows _), ?_⟩
      · intro hloaded
        have := (History.got?_of_loaded? hloaded).2
        rw [Cache.isResident_of_get? hold] at this
        cases this
      · intro hdisplaced
        obtain ⟨hm, hlater⟩ := List.forall_mem_cons.1 hdisplaced
        obtain ⟨s, hs, hagrees, hsource⟩ := hkept hlater
        obtain ⟨t, ht, hagrees, rfl | hdeed⟩ := hmade.registration hpaired hs hagrees hm
        · exact ⟨t, ht, hagrees, hsource.imp_right fun ⟨l, hl, hdeed⟩ =>
            ⟨l, List.mem_cons_of_mem m hl, hdeed⟩⟩
        · exact ⟨t, ht, hagrees, .inr ⟨m, List.mem_cons_self, hdeed⟩⟩
    · obtain ⟨r, hr, hp⟩ := Catalog.stored?_eq_some.1 hread
      obtain ⟨htable, image, himage, hdecode⟩ := TableFile.readPage_eq_ok.1 hp
      refine ⟨[], m, moves, r, rfl, by simp, ⟨hloaded, hr, p, hp, hshape⟩, ?_, ?_⟩
      · obtain ⟨layout, -, -, hlayout, -⟩ := Page.decode_eq_ok.1 hdecode
        exact Nat.le_trans (Bytes.le_of_window? (TableFile.pos_of_ofSchema hlayout) himage)
          (hgrows _)
      · intro _
        have hnot : ∀ s, m.deed ≠ .register s := by
          intro s hs
          have := (History.got?_of_loaded? hloaded).1
          simp [Move.got?, hs] at this
        have hkeep : ¬ m.Displaces r.file := by
          rintro ⟨s, hs, -⟩
          exact hnot s hs
        obtain ⟨s, hs, hagrees, rfl | hdeed⟩ :=
          hmade.registration hpaired (htable ▸ hr) (.refl r.file) hkeep
        · exact ⟨s, hs, hagrees, .inl rfl⟩
        · exact absurd hdeed (hnot s)

end Trace

namespace Database

variable {σ : Type} {db : Database σ} {page : PageId}

/-- Only a file that was made to fail refuses a page of its own table. -/
theorem store_of_registration {r : Registration} {p : Page}
    (hr : db.catalog.registration page.table = .ok r) (htable : p.id.table = r.file.id)
    (hfault : r.faults.write = false) :
    db.store page p =
      .ok (db.volume.writeAt r.file.path (p.id.offset r.file.pageSize) p.encode) := by
  have hwrite : r.file.writePage db.volume p = _ := TableFile.writePage_eq_ok.2 ⟨htable, rfl⟩
  simpa [store, hr, bind, Except.bind, Registration.writePage, hfault] using hwrite

/-- The table of a page is registered in the shape of the page, and flushing the page stores it over
its own bytes, unless the file is made to fail. -/
structure Serves (db : Database σ) (r : Registration) (page : PageId) (p : Page) : Prop where
  registered : db.catalog.registration page.table = .ok r
  id_eq : p.id = page
  table_eq : page.table = r.file.id
  types_eq : p.schema.types = r.file.schema.types
  pageSize_eq : p.layout.pageSize = r.file.pageSize
  flush : ∀ answer db', (flushPage page).run db = (answer, db') →
    answer = .ok () ∧ r.file.Rewrites p db.volume db'.volume ∨
      r.faults.write = true ∧ (∃ e, answer = .error e) ∧ db' = db

theorem serves {frame : Frame} {r : Registration}
    (hf : db.cache.frames.get? page = some frame) (hid : frame.page.id = page)
    (hr : db.catalog.registration page.table = .ok r) (htable : page.table = r.file.id)
    (htypes : frame.page.schema.types = r.file.schema.types)
    (hsize : frame.page.layout.pageSize = r.file.pageSize)
    (hinside : page.offset r.file.pageSize + r.file.pageSize ≤ db.volume.length r.file.path) :
    db.Serves r page frame.page := by
  refine ⟨hr, hid, htable, htypes, hsize, ?_⟩
  intro answer db' hrun
  rcases flushPage_cases hrun with ⟨hnone, -, -⟩ |
    ⟨found, hfound, ⟨e, hw, hanswer, hdb⟩ | ⟨w, hw, hanswer, rfl⟩⟩
  · rw [hf] at hnone
    cases hnone
  · obtain rfl := Option.some.inj (hf.symm.trans hfound)
    refine .inr ⟨?_, ⟨e, hanswer⟩, hdb⟩
    by_contra hfault
    rw [store_of_registration hr (hid.symm ▸ htable) (by simpa using hfault)] at hw
    cases hw
  · obtain rfl := Option.some.inj (hf.symm.trans hfound)
    obtain ⟨s, hs, hwrite⟩ := store_eq_ok hw
    obtain rfl := Except.ok.inj (hs.symm.trans hr)
    refine .inl ⟨hanswer, TableFile.rewrites_of_writePage hsize ?_ hwrite⟩
    rw [hid]
    exact hinside

end Database

/-- Through any session with a database that was just started, a resident page keeps the schema and
the page size of the registration that it was last read by. It belongs to its table, by whichever
registration the table has now, as long as that opens the same file in the same way; and that is so
unless the file was displaced since. -/
theorem Session.resident_serves {σ : Type} {locking : LockManager σ} {settings : Settings}
    {volume : Volume} {locks : σ} {start db : Database σ} {steps : List (Exchange σ)}
    (hstart : Database.start settings volume locks = .ok start)
    (h : Session locking start steps db) :
    (∃ moves, Itemized locking steps moves) ∧
      ∀ moves, Itemized locking steps moves → ∀ page frame,
        db.cache.frames.get? page = some frame →
        ∃ (later : List (Move σ)) (m : Move σ) (earlier : List (Move σ)) (r : Registration),
          moves = later ++ m :: earlier ∧ (∀ l ∈ later, l.loaded? ≠ some page) ∧
          m.Loads r page frame.page ∧ frame.page.schema = r.file.schema ∧
          frame.page.layout.pageSize = r.file.pageSize ∧
          (∀ s, db.catalog.registration page.table = .ok s → s.file.Agrees r.file →
            db.Serves s page frame.page) ∧
          ((∀ l ∈ later, ¬ l.Displaces r.file) →
            ∃ s, (s = r ∨ ∃ l ∈ later, l.deed = .register s) ∧ s.file.Agrees r.file ∧
              db.Serves s page frame.page) := by
  obtain ⟨-, -, hstart⟩ := Except.bind_eq_ok.1 hstart
  obtain rfl := Except.ok.inj hstart
  have hcache : (Cache.ofCapacity settings.cacheCapacity).Housed := Cache.housed_ofCapacity _
  refine ⟨h.itemized hcache, ?_⟩
  intro moves hmoves page frame hf
  have htrace := h.trace hmoves
  obtain ⟨later, m, earlier, r, heq, hlast, hloads, hinside, hkept⟩ :=
    htrace.origin rfl Catalog.paired_empty hf
  obtain ⟨q, hq, hshape⟩ := hloads.read
  have hbelongs := TableFile.belongsTo_of_readPage hq
  obtain ⟨htable, -⟩ := TableFile.readPage_eq_ok.1 hq
  have hschema : frame.page.schema = r.file.schema := hshape.schema_eq.trans hbelongs.schema_eq
  have hsize : frame.page.layout.pageSize = r.file.pageSize := by
    rw [hshape.layout_eq, hbelongs.pageSize_eq]
  have hserves (s : Registration) (hs : db.catalog.registration page.table = .ok s)
      (hagrees : s.file.Agrees r.file) : db.Serves s page frame.page := by
    refine Database.serves hf (htrace.housed hcache page frame hf).2 hs
      (htable.trans hagrees.id_eq.symm) ?_ (hsize.trans hagrees.pageSize_eq.symm) ?_
    · rw [hschema, hagrees.types_eq]
    · rw [hagrees.path_eq, hagrees.pageSize_eq]
      exact hinside
  refine ⟨later, m, earlier, r, heq, hlast, hloads, hschema, hsize, hserves, ?_⟩
  intro hdisplaced
  obtain ⟨s, hs, hagrees, hsource⟩ := hkept hdisplaced
  exact ⟨s, hsource, hagrees, hserves s (htable ▸ hs) hagrees⟩

/-- A page is fetched, and then its table is registered again for the same use of the file, under
another name. -/
theorem Session.resident_serves_renamed :
    ∃ start steps db frame s,
      Database.start ⟨9, 4, false⟩ ⟨[[]], ⟨[(["t"], Bytes.zeros 9)]⟩⟩ () = .ok start ∧
        Session .permissive start steps db ∧
        db.cache.frames.get? ⟨TableFile.idOf ["t"], 0⟩ = some frame ∧ s.name = "u" ∧
        db.Serves s ⟨TableFile.idOf ["t"], 0⟩ frame.page := by
  let start : Database Unit :=
    ⟨⟨9, 4, false⟩, ⟨[[]], ⟨[(["t"], Bytes.zeros 9)]⟩⟩, Catalog.empty, Cache.ofCapacity 4, ()⟩
  let file : TableFile := ⟨["t"], TableFile.idOf ["t"], Database.numbers, 9⟩
  let result := Database.converse .permissive [] start
    [.openFile [] "t" Database.numbers 9, .addTable ⟨file, "t", "", .none⟩,
      .call (.fetch ⟨1⟩ ⟨TableFile.idOf ["t"], 0⟩ .readOnly []), .addTable ⟨file, "u", "", .none⟩]
  have hsession : Session .permissive start result.1 result.2 :=
    Session.nil.converse (by simp [Request.Permitted])
  have hstart : Database.start ⟨9, 4, false⟩ ⟨[[]], ⟨[(["t"], Bytes.zeros 9)]⟩⟩ () =
      .ok start := rfl
  have hopen : Unfolds .permissive
      ((Request.openFile [] "t" Database.numbers 9).perform .permissive) start
      [Move.of .permissive start (.openFile [] "t" Database.numbers 9)] :=
    .deed _ (id_map _) trivial
  have hadd (db : Database Unit) (name : String) : Unfolds .permissive
      ((Request.addTable ⟨file, name, "", .none⟩).perform .permissive) db
      [Move.of .permissive db (.register ⟨file, name, "", .none⟩)] := .deed _ (id_map _) trivial
  have hfetch (db : Database Unit) : Unfolds .permissive
      ((Request.call (.fetch ⟨1⟩ ⟨TableFile.idOf ["t"], 0⟩ .readOnly [])).perform .permissive) db
      [Move.of .permissive db (.fetch ⟨1⟩ ⟨TableFile.idOf ["t"], 0⟩ .readOnly [])] :=
    .deed _ (by simp only [Request.perform, Database.perform, Deed.perform, Functor.map_map])
      trivial
  have hmoves : Itemized .permissive result.1 _ :=
    .cons (.cons (.cons (.cons .nil hopen) (hadd _ "t")) (hfetch _)) (hadd _ "u")
  obtain ⟨frame, hf⟩ : ∃ frame,
      result.2.cache.frames.get? ⟨TableFile.idOf ["t"], 0⟩ = some frame :=
    Option.isSome_iff_exists.1 (by decide +kernel)
  obtain ⟨later, m, earlier, r, hsplit, -, hloads, -, -, -, hserves⟩ :=
    (Session.resident_serves hstart hsession).2 _ hmoves _ frame hf
  -- only the fetch loads anything, and whatever is registered is the file
  have hall : ∀ l ∈ later ++ m :: earlier,
      (∀ s, l.deed = .register s → s.file = file) ∧ (l.got? ≠ none →
        l.before.catalog.registration (TableFile.idOf ["t"]) = .ok ⟨file, "t", "", .none⟩) := by
    rw [← hsplit]
    intro l hl
    simp only [List.cons_append, List.nil_append, List.mem_cons, List.not_mem_nil, or_false] at hl
    rcases hl with rfl | rfl | rfl | rfl
    · exact ⟨fun s hs => (Deed.register.inj hs) ▸ rfl, fun hgot => absurd rfl hgot⟩
    · refine ⟨fun s hs => ?_, fun _ => Catalog.registration_eq_ok.2 (by decide +kernel)⟩
      cases hs
    · exact ⟨fun s hs => (Deed.register.inj hs) ▸ rfl, fun hgot => absurd rfl hgot⟩
    · refine ⟨fun s hs => ?_, fun hgot => absurd rfl hgot⟩
      cases hs
  have hfile : r.file = file := by
    have hgot := (History.got?_of_loaded? hloads.loaded).1
    have hr := (hall m (by simp)).2 (by simp [hgot])
    exact congrArg Registration.file (Except.ok.inj (hloads.registered.symm.trans hr))
  have hkeep : ∀ l ∈ later, ¬ l.Displaces r.file := by
    rintro l hl ⟨s, hdeed, hdisplaces⟩
    have hs : s.file = r.file := ((hall l (List.mem_append_left _ hl)).1 s hdeed).trans hfile.symm
    rw [hs, if_pos rfl] at hdisplaces
    exact hdisplaces (.refl r.file)
  obtain ⟨s, -, -, hserves⟩ := hserves hkeep
  have hs : result.2.catalog.registration (TableFile.idOf ["t"]) = .ok ⟨file, "u", "", .none⟩ :=
    Catalog.registration_eq_ok.2 (by decide +kernel)
  obtain rfl := Except.ok.inj (hserves.registered.symm.trans hs)
  exact ⟨start, _, _, frame, _, rfl, hsession, hf, rfl, hserves⟩

/-- A table of two pages is registered anew with pages of twice the size while its pages are
resident. The second one is then stored at its number times the new size, which leaves the file with
half a page at its end. -/
theorem Session.resident_outlives_registration :
    ∃ start steps db frame r db',
      Database.start ⟨9, 4, false⟩ ⟨[[]], Keyed.empty⟩ () = .ok start ∧
        Session .permissive start steps db ∧
        db.cache.frames.get? ⟨TableFile.idOf ["t"], 1⟩ = some frame ∧
        db.catalog.registration (TableFile.idOf ["t"]) = .ok r ∧
        frame.page.layout.pageSize ≠ r.file.pageSize ∧
        r.file.pageSize ∣ db.volume.length r.file.path ∧
        (Database.flushPage ⟨TableFile.idOf ["t"], 1⟩).run db = (.ok (), db') ∧
        ¬ r.file.pageSize ∣ db'.volume.length r.file.path := by
  let start : Database Unit :=
    ⟨⟨9, 4, false⟩, ⟨[[]], Keyed.empty⟩, Catalog.empty, Cache.ofCapacity 4, ()⟩
  let wide : Registration := ⟨⟨["t"], TableFile.idOf ["t"], Database.numbers, 18⟩, "t", "", .none⟩
  let result := Database.converse .permissive [] start
    [.openTable [] "t" Database.numbers "t" "",
      .call (.insert ⟨1⟩ (TableFile.idOf ["t"]) (Database.number 5)),
      .call (.insert ⟨1⟩ (TableFile.idOf ["t"]) (Database.number 6)),
      .call (.insert ⟨1⟩ (TableFile.idOf ["t"]) (Database.number 7)),
      .call .flushAll, .openFile [] "t" Database.numbers 18, .addTable wide]
  have hsession : Session .permissive start result.1 result.2 :=
    Session.nil.converse (by simp [Request.Permitted])
  obtain ⟨frame, hf, hsize⟩ : ∃ frame,
      result.2.cache.frames.get? ⟨TableFile.idOf ["t"], 1⟩ = some frame ∧
        frame.page.layout.pageSize = 9 := by
    have : (result.2.cache.frames.get? ⟨TableFile.idOf ["t"], 1⟩).map
        (fun frame => frame.page.layout.pageSize) = some 9 := by decide +kernel
    exact Option.map_eq_some_iff.1 this
  have hok : ((Database.flushPage ⟨TableFile.idOf ["t"], 1⟩).run result.2).1.isOk = true := by
    decide +kernel
  have hlength : ¬ 18 ∣ ((Database.flushPage ⟨TableFile.idOf ["t"], 1⟩).run
      result.2).2.volume.length ["t"] := by decide +kernel
  rcases hflush : (Database.flushPage ⟨TableFile.idOf ["t"], 1⟩).run result.2 with ⟨_ | _, db'⟩
  · rw [hflush] at hok
    cases hok
  · rw [hflush] at hlength
    refine ⟨start, _, _, frame, wide, db', rfl, hsession, hf,
      Catalog.registration_eq_ok.2 (by decide +kernel), ?_, by decide +kernel, hflush, hlength⟩
    rw [hsize]
    decide

end RowStore
