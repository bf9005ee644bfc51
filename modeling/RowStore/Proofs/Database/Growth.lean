import RowStore.Proofs.Database.Origin
import RowStore.Proofs.Database.Placement
import RowStore.Proofs.Database.Reopen
import RowStore.Proofs.Page.Images

/-!
# Growing a table

An insertion that finds no page with room appends a page of zeros at the end of the file and stores
the row in its first slot. This holds of any database, as long as the file has fewer than 2^32
pages, so that the number of the new page is its position, and no page of that number is resident.
Past 2^32 pages the numbers wrap around, and the page of zeros is written over an old page.
-/

namespace RowStore

namespace Page

variable {page : PageId} {schema : Schema} {pageSize : Nat} {p : Page}

/-- A page of zeros has no row, whatever the schema. -/
theorem row?_of_empty (h : Page.empty page schema pageSize = .ok p) (i : Nat) :
    p.row? i = none := by
  obtain ⟨layout, -, -, hlayout, -⟩ := decode_eq_ok.1 h
  obtain ⟨hreads, -⟩ := reads_of_decode hlayout h
  have hunset : ¬ p.header.isSet i = true := by
    rw [hreads.isSet_iff, SlotMap.bitAt_zeros]
    simp
  rw [(Sound.of_decode h).isSet_eq] at hunset
  simpa using hunset

/-- Its first slot is the one that a row goes into. -/
theorem lowestEmpty?_of_empty (h : Page.empty page schema pageSize = .ok p) :
    p.header.lowestEmpty? = some 0 := by
  have hsound := Sound.of_decode h
  refine (SlotMap.lowestEmpty?_eq_some hsound.header).2 ⟨?_, ?_, nofun⟩
  · rw [hsound.slots_eq]
    exact (layout_of_ofSchema hsound.layout_eq).2
  · rw [hsound.isSet_eq, row?_of_empty h]
    rfl

/-- A page of zeros that is about to be written takes a row into its first slot. -/
theorem insert_of_empty {row : Row} (h : Page.empty page schema pageSize = .ok p)
    (htypes : row.schema.types = schema.types) (owner? : Option TxnId) :
    ∃ kept, (p.markDirty owner?).insert row =
        .ok (kept, { row with place := some ⟨page, 0⟩ }) ∧
      ∀ i, kept.row? i = if i = 0 then some { row with place := some ⟨page, 0⟩ } else none := by
  have hsound := (Sound.of_decode h).markDirty owner?
  have hmarked := markDirty_eq p owner?
  have hid : (p.markDirty owner?).id = page :=
    (congrArg Page.id hmarked).trans (id_of_decode (p := p) h)
  have hschema : (p.markDirty owner?).schema = schema :=
    (congrArg Page.schema hmarked).trans (schema_of_decode (p := p) h)
  have hlowest : (p.markDirty owner?).header.lowestEmpty? = some 0 :=
    (congrArg (fun q => q.header.lowestEmpty?) hmarked).trans (lowestEmpty?_of_empty (p := p) h)
  have hblank (i : Nat) : (p.markDirty owner?).row? i = none :=
    (congrArg (fun q => q.row? i) hmarked).trans (row?_of_empty (p := p) h i)
  have hinsert := insert_eq_ok.2 ⟨hschema ▸ htypes, 0, hlowest, rfl, rfl⟩
  obtain ⟨slot, hslot, -, hset⟩ := hsound.setAt_insert hinsert
  obtain rfl : 0 = slot := Option.some.inj (hlowest.symm.trans hslot)
  rw [hid] at hinsert hset
  exact ⟨_, hinsert, fun i => by rw [hset.row?_eq, hblank]⟩

end Page

namespace Database

variable {σ : Type} {locking : LockManager σ} {txn : TxnId} {page : PageId} {access : Access}
  {seen : List PageId}
  {pinned : List Handle} {row : Row} {r : Registration} {frame : Frame}
  {db mid after db' : Database σ}

/-! ## The search for room -/

/-- No file and no table is different, and the pages that became resident are among those seen. -/
structure Passes (seen : List PageId) (db db' : Database σ) : Prop where
  volume_eq : db'.volume = db.volume
  catalog_eq : db'.catalog = db.catalog
  absent : ∀ q, q ∉ seen → db.cache.frames.get? q = none → db'.cache.frames.get? q = none

theorem Passes.refl (seen : List PageId) (db : Database σ) : Passes seen db db :=
  ⟨rfl, rfl, fun _ _ => id⟩

theorem Passes.trans (h : Passes seen db mid) (h' : Passes seen mid db') : Passes seen db db' :=
  ⟨h'.volume_eq.trans h.volume_eq, h'.catalog_eq.trans h.catalog_eq,
    fun q hq habsent => h'.absent q hq (h.absent q hq habsent)⟩

/-- A fetch makes no page resident but the one that is fetched. -/
theorem passes_fetch {answer : Except StorageError Frame} (hseen : page ∈ seen)
    (hrun : (fetch locking txn page access pinned).run db = (answer, db')) :
    Passes seen db db' := by
  have hne {q : PageId} (hq : q ∉ seen) : q ≠ page := fun heq => hq (heq ▸ hseen)
  rcases fetch_cases hrun with ⟨e, -, hdb⟩ | ⟨old, hf, -, hdb⟩ | ⟨p, roomy, -, -, hroom, -, hdb⟩
  · rw [hdb]
    exact ⟨rfl, rfl, fun _ _ => id⟩
  · rw [hdb]
    refine ⟨rfl, rfl, fun q hq habsent => ?_⟩
    rw [Cache.get?_request txn access hf, if_neg (hne hq), habsent]
  · rw [hdb]
    refine ⟨rfl, rfl, fun q hq habsent => ?_⟩
    rw [Cache.get?_install, if_neg (hne hq)]
    cases hget : roomy.frames.get? q with
    | none => rfl
    | some frame =>
      rw [Cache.get?_of_makeRoom hroom hget] at habsent
      cases habsent

/-- A page that turns out to be full was fetched, and that is all. -/
theorem passes_insertInto (hseen : page ∈ seen)
    (hrun : (insertInto locking txn page row).run db = (.ok none, db')) : Passes seen db db' := by
  obtain ⟨frame, mid, hfetch, hrest⟩ := Action.run_bind_eq_ok.1 hrun
  split at hrest
  · obtain ⟨_, _, -, hanswer⟩ := Action.run_bind_eq_ok.1 hrest
    cases hanswer
  · obtain ⟨-, rfl⟩ := Prod.mk.inj hrest
    exact passes_fetch hseen hfetch
  · cases hrest

theorem passes_insertAmong {file : TableFile} {ns : List Nat}
    (hseen : ∀ n ∈ ns, file.pageAt n ∈ seen)
    (hrun : (insertAmong locking file txn row ns).run db = (.ok none, db')) :
    Passes seen db db' := by
  induction ns generalizing db with
  | nil =>
    obtain ⟨-, rfl⟩ := Prod.mk.inj hrun
    exact .refl seen db
  | cons n ns ih =>
    obtain ⟨hfirst, hothers⟩ := List.forall_mem_cons.1 hseen
    obtain ⟨frame, mid, hfetch, hrest⟩ := Action.run_bind_eq_ok.1 hrun
    have hpasses := passes_fetch hfirst hfetch
    split at hrest
    · exact hpasses.trans (ih hothers hrest)
    · obtain ⟨found, after, hinto, hrest⟩ := Action.run_bind_eq_ok.1 hrest
      cases found with
      | some change => cases hrest
      | none => exact (hpasses.trans (passes_insertInto hfirst hinto)).trans (ih hothers hrest)

/-- The search sees the pages of the file. -/
theorem passes_search {file : TableFile} {ns : List Nat}
    (hrun : (insertAmong locking file txn row ns).run db = (.ok none, db')) :
    Passes (ns.map file.pageAt) db db' :=
  passes_insertAmong (fun _ => List.mem_map_of_mem) hrun

/-- A search without success leads to the page that is appended. -/
theorem insertRound_of_full {file : TableFile} (hscan : (insertAmong locking file txn row
      (List.range (file.pageCount db.volume))).run db = (.ok none, mid)) :
    (insertRound locking file txn row).run db =
      (insertInto locking txn (file.pageAt (file.pageCount mid.volume)) row).run
        { mid with volume := (file.allocate mid.volume).2 } := by
  have hallocate : (allocate file).run mid = (.ok (file.pageAt (file.pageCount mid.volume)),
    { mid with volume := (file.allocate mid.volume).2 }) := rfl
  rw [insertRound, Action.run_bind, positions, Action.run_ask]
  simp only
  rw [Action.run_bind_of_ok hscan]
  simp only
  rw [Action.run_bind_of_ok hallocate]

/-- No second round is made if the first one stores the row. -/
theorem insertRow_of_round {file : TableFile} {change : Change}
    (htypes : row.schema.types = file.schema.types)
    (hround : (insertRound locking file txn row).run db = (.ok (some change), db')) :
    (∀ rounds, (insertRounds locking file txn row (rounds + 1)).run db = (.ok change, db')) ∧
      (insertRow locking file txn row).run db = (.ok change, db') := by
  have hrounds (rounds : Nat) :
      (insertRounds locking file txn row (rounds + 1)).run db = (.ok change, db') := by
    rw [insertRounds, Action.run_bind_of_ok hround]
    rfl
  refine ⟨hrounds, ?_⟩
  rw [insertRow, if_neg (not_not.2 htypes), Action.run_bind, Action.run_ask]
  exact hrounds _

/-! ## The first row of a page -/

/-- A page that is fetched but not resident is read from the file of its table. -/
theorem readPage_of_fetch (hr : db.catalog.registration page.table = .ok r)
    (habsent : db.cache.frames.get? page = none)
    (hfetch : (fetch locking txn page access pinned).run db = (.ok frame, mid)) :
    ∃ (p : Page) (roomy : Cache), r.file.readPage db.volume page = .ok p ∧
      frame = (roomy.install page (Cache.touch txn access p)).1 ∧
      mid = { db with
        locks := mid.locks
        cache := (roomy.install page (Cache.touch txn access p)).2 } := by
  rcases fetch_cases hfetch with ⟨e, he, -⟩ | ⟨old, hf, -⟩ | ⟨p, roomy, -, hstored, -, hframe, hdb⟩
  · cases he
  · rw [habsent] at hf
    cases hf
  · obtain ⟨s, hs, hread⟩ := Catalog.stored?_eq_some.1 hstored
    obtain rfl : r = s := Except.ok.inj (hr.symm.trans hs)
    exact ⟨p, roomy, hread, Except.ok.inj hframe, hdb⟩

/-- The page is resident, changed by the transaction, and has the row in its first slot and no
other. -/
def Begins (txn : TxnId) (page : PageId) (change : Change) (db : Database σ) : Prop :=
  ∃ p, db.cache.frames.get? page = some ⟨change.handle, p⟩ ∧ p.row? 0 = some change.row ∧
    (∀ i, i ≠ 0 → p.row? i = none) ∧ p.dirtier? = some txn

/-- Where the file has zeros for a page that is not resident, a row goes into its first slot. -/
theorem insertInto_of_zeros (hr : db.catalog.registration page.table = .ok r)
    (habsent : db.cache.frames.get? page = none)
    (himage : r.file.image? db.volume page = some (Bytes.zeros r.file.pageSize))
    (htypes : row.schema.types = r.file.schema.types)
    (hfetch : (fetch locking txn page .readWrite []).run db = (.ok frame, mid)) :
    ∃ change db', (insertInto locking txn page row).run db = (.ok (some change), db') ∧
      change.row = { row with place := some ⟨page, 0⟩ } ∧ Begins txn page change db' ∧
      db'.volume = db.volume := by
  obtain ⟨p, roomy, hread, rfl, hdb⟩ := readPage_of_fetch hr habsent hfetch
  have hempty : Page.empty page r.file.schema r.file.pageSize = .ok p :=
    (TableFile.readPage_of_image (TableFile.readPage_eq_ok.1 hread).1 himage).symm.trans hread
  have htouch : Cache.touch txn .readWrite p = p.markDirty (some txn) := rfl
  have hresident : mid.cache.frames.get? page =
      some ⟨⟨page, roomy.nextSerial⟩, p.markDirty (some txn)⟩ := by
    rw [hdb, Cache.get?_install, if_pos rfl, htouch]
  obtain ⟨kept, hinsert, hrows⟩ := Page.insert_of_empty hempty htypes (some txn)
  have hkept := Cache.get?_modify hresident rfl (fun _ => kept.markDirty (some txn)) page
  rw [if_pos rfl] at hkept
  refine ⟨⟨{ row with place := some ⟨page, 0⟩ }, ⟨page, roomy.nextSerial⟩⟩,
    { mid with cache := mid.cache.modify ⟨page, roomy.nextSerial⟩ fun _ =>
      kept.markDirty (some txn) }, ?_, rfl, ⟨kept.markDirty (some txn), hkept, ?_⟩, ?_⟩
  · rw [insertInto, Action.run_bind_of_ok hfetch]
    simp only [Cache.install, htouch, hinsert]
    rfl
  · rw [Page.markDirty_eq]
    exact ⟨hrows 0, fun i hi => (hrows i).trans (if_neg hi), rfl⟩
  · rw [hdb]

/-! ## Growth -/

/-- If the search finds no room and the number of the page that is appended is not resident, the
row is stored on that page in the first round. -/
theorem insertRow_of_full (hr : db.catalog.registration r.file.id = .ok r)
    (htypes : row.schema.types = r.file.schema.types)
    (hscan : (insertAmong locking r.file txn row
      (List.range (r.file.pageCount db.volume))).run db = (.ok none, mid))
    (habsent : mid.cache.frames.get? (r.file.pageAt (r.file.pageCount db.volume)) = none)
    (hfetch : (fetch locking txn (r.file.pageAt (r.file.pageCount db.volume)) .readWrite []).run
      { mid with volume := (r.file.allocate mid.volume).2 } = (.ok frame, after)) :
    0 < r.file.pageSize ∧ ∃ change db',
      (∀ rounds, (insertRounds locking r.file txn row (rounds + 1)).run db = (.ok change, db')) ∧
      (insertRow locking r.file txn row).run db = (.ok change, db') ∧
      change.row = { row with place := some ⟨r.file.pageAt (r.file.pageCount db.volume), 0⟩ } ∧
      Begins txn (r.file.pageAt (r.file.pageCount db.volume)) change db' ∧
      db'.volume = (r.file.allocate db.volume).2 := by
  obtain ⟨hvolume, hcatalog, -⟩ := passes_search hscan
  rw [hvolume] at hfetch
  let grown : Database σ := { mid with volume := (r.file.allocate db.volume).2 }
  have hr' : grown.catalog.registration
      (r.file.pageAt (r.file.pageCount db.volume)).table = .ok r := hcatalog ▸ hr
  have hpos : 0 < r.file.pageSize := by
    obtain ⟨p, -, hread, -⟩ := readPage_of_fetch hr' habsent hfetch
    obtain ⟨-, image, -, hp⟩ := TableFile.readPage_eq_ok.1 hread
    obtain ⟨layout, -, -, hlayout, -⟩ := Page.decode_eq_ok.1 hp
    exact TableFile.pos_of_ofSchema hlayout
  obtain ⟨change, db', hinto, hrow, hbegins, hkept⟩ :=
    insertInto_of_zeros hr' habsent TableFile.image?_allocate_self htypes hfetch
  have hround : (insertRound locking r.file txn row).run db = (.ok (some change), db') := by
    rw [insertRound_of_full hscan, hvolume]
    exact hinto
  obtain ⟨hrounds, hrun⟩ := insertRow_of_round htypes hround
  exact ⟨hpos, change, db', hrounds, hrun, hrow, hbegins, hkept⟩

/-- The file has one page more, which holds the row, and all that any file had is still there. -/
structure Grew (txn : TxnId) (r : Registration) (row : Row) (change : Change)
    (db db' : Database σ) : Prop where
  number_eq : (r.file.pageAt (r.file.pageCount db.volume)).number.toNat =
    r.file.pageCount db.volume
  read_eq : db'.volume.read r.file.path =
    db.volume.read r.file.path ++ Bytes.zeros r.file.pageSize
  read_other : ∀ path, path ≠ r.file.path → db'.volume.read path = db.volume.read path
  pageCount_eq : r.file.pageCount db'.volume = r.file.pageCount db.volume + 1
  row_eq : change.row =
    { row with place := some ⟨r.file.pageAt (r.file.pageCount db.volume), 0⟩ }
  begins : Begins txn (r.file.pageAt (r.file.pageCount db.volume)) change db'

/-- As long as there are numbers for more pages, a file of whole pages grows at its end. -/
theorem insertion_grows_file (hr : db.catalog.registration r.file.id = .ok r)
    (haligned : r.file.pageSize ∣ db.volume.length r.file.path)
    (hsmall : r.file.pageCount db.volume < 0x100000000)
    (hnew : db.cache.frames.get? (r.file.pageAt (r.file.pageCount db.volume)) = none)
    (htypes : row.schema.types = r.file.schema.types)
    (hscan : (insertAmong locking r.file txn row
      (List.range (r.file.pageCount db.volume))).run db = (.ok none, mid))
    (hfetch : (fetch locking txn (r.file.pageAt (r.file.pageCount db.volume)) .readWrite []).run
      { mid with volume := (r.file.allocate mid.volume).2 } = (.ok frame, after)) :
    ∃ change db',
      (∀ rounds, (insertRounds locking r.file txn row (rounds + 1)).run db = (.ok change, db')) ∧
      (insertRow locking r.file txn row).run db = (.ok change, db') ∧
      Grew txn r row change db db' := by
  have hunseen : r.file.pageAt (r.file.pageCount db.volume) ∉
      (List.range (r.file.pageCount db.volume)).map r.file.pageAt := by
    intro hmem
    obtain ⟨n, hn, heq⟩ := List.mem_map.1 hmem
    have hlt := List.mem_range.1 hn
    have hnumber := congrArg (fun page => page.number.toNat) heq
    simp only [View.number_pageAt hsmall, View.number_pageAt (Nat.lt_trans hlt hsmall)] at hnumber
    omega
  have habsent := (passes_search hscan).absent _ hunseen hnew
  obtain ⟨hpos, change, db', hrounds, hrun, hrow, hbegins, hvolume⟩ :=
    insertRow_of_full hr htypes hscan habsent hfetch
  refine ⟨change, db', hrounds, hrun, ?_⟩
  refine
    { number_eq := TableFile.number_allocate hsmall
      read_eq := ?_
      read_other := fun path hpath => ?_
      pageCount_eq := ?_
      row_eq := hrow
      begins := hbegins }
  · rw [hvolume, TableFile.read_allocate_of_aligned haligned hsmall]
  · rw [hvolume, TableFile.read_allocate_of_ne hpath]
  · rw [hvolume, TableFile.pageCount_allocate haligned hsmall hpos]

/-- A page of two rows is full, and the third row makes the file grow, with a cache of one page. -/
theorem insertion_grows_file_second_page :
    ∃ (db db' : Database Unit) (r : Registration) (change : Change),
      db.catalog.registration r.file.id = .ok r ∧ r.file.pageCount db.volume = 1 ∧
      (insertRow .permissive r.file ⟨2⟩ (number 7).val).run db = (.ok change, db') ∧
      change.row.place = some ⟨⟨r.file.id, 1⟩, 0⟩ ∧
      db'.volume.length r.file.path = 18 ∧ Grew ⟨2⟩ r (number 7).val change db db' := by
  let r : Registration := ⟨⟨["t"], TableFile.idOf ["t"], numbers, 9⟩, "t", "", .none⟩
  let db := (play .permissive [] (ofTable numbers 9 1)
    [.insert ⟨1⟩ r.file.id (number 5), .insert ⟨1⟩ r.file.id (number 6), .complete ⟨1⟩ true]).2
  let scanned := (insertAmong .permissive r.file ⟨2⟩ (number 7).val
    (List.range (r.file.pageCount db.volume))).run db
  let grown : Database Unit :=
    { scanned.2 with volume := (r.file.allocate scanned.2.volume).2 }
  let fetched := (fetch .permissive ⟨2⟩ (r.file.pageAt (r.file.pageCount db.volume))
    .readWrite []).run grown
  have hcount : r.file.pageCount db.volume = 1 := by decide +kernel
  have hr : db.catalog.registration r.file.id = .ok r :=
    Catalog.registration_eq_ok.2 (by decide +kernel)
  have hscan : scanned = (.ok none, scanned.2) := by
    have hnone : scanned.1 = .ok none := by decide +kernel
    rw [← hnone]
  obtain ⟨frame, hframe⟩ : ∃ frame, fetched.1 = .ok frame := by
    have hok : fetched.1.isOk = true := by decide +kernel
    cases hanswer : fetched.1 with
    | ok frame => exact ⟨frame, rfl⟩
    | error e =>
      rw [hanswer] at hok
      cases hok
  have hfetch : fetched = (.ok frame, fetched.2) := by rw [← hframe]
  obtain ⟨change, db', -, hrun, hgrew⟩ := insertion_grows_file hr (by decide +kernel)
    (by rw [hcount]; decide) (by decide +kernel) rfl hscan hfetch
  have hlength : db.volume.length r.file.path = 9 := by decide +kernel
  refine ⟨db, db', r, change, hr, hcount, hrun, ?_, ?_, hgrew⟩
  · rw [hgrew.row_eq, hcount]
    rfl
  · rw [Volume.length, hgrew.read_eq, List.length_append, Bytes.length_zeros]
    exact congrArg (· + 9) hlength

/-! ## Past the last page number -/

/-- A page of the file was replaced by zeros, on which the row is now, and the file is as long as
it was. -/
structure Overwrote (txn : TxnId) (r : Registration) (row : Row) (change : Change)
    (db db' : Database σ) : Prop where
  number_eq : (r.file.pageAt (r.file.pageCount db.volume)).number.toNat =
    r.file.pageCount db.volume % 0x100000000
  image_eq : r.file.image? db'.volume (r.file.pageAt (r.file.pageCount db.volume)) =
    some (Bytes.zeros r.file.pageSize)
  length_eq : db'.volume.length r.file.path = db.volume.length r.file.path
  pageCount_eq : r.file.pageCount db'.volume = r.file.pageCount db.volume
  row_eq : change.row =
    { row with place := some ⟨r.file.pageAt (r.file.pageCount db.volume), 0⟩ }
  begins : Begins txn (r.file.pageAt (r.file.pageCount db.volume)) change db'

/-- A file with a page for each number does not grow: the page that should be appended is written
over the page that has its number. -/
theorem insertion_overwrites_page (hr : db.catalog.registration r.file.id = .ok r)
    (hlarge : 0x100000000 ≤ r.file.pageCount db.volume)
    (htypes : row.schema.types = r.file.schema.types)
    (hscan : (insertAmong locking r.file txn row
      (List.range (r.file.pageCount db.volume))).run db = (.ok none, mid))
    (habsent : mid.cache.frames.get? (r.file.pageAt (r.file.pageCount db.volume)) = none)
    (hfetch : (fetch locking txn (r.file.pageAt (r.file.pageCount db.volume)) .readWrite []).run
      { mid with volume := (r.file.allocate mid.volume).2 } = (.ok frame, after)) :
    ∃ change db',
      (∀ rounds, (insertRounds locking r.file txn row (rounds + 1)).run db = (.ok change, db')) ∧
      (insertRow locking r.file txn row).run db = (.ok change, db') ∧
      Overwrote txn r row change db db' := by
  obtain ⟨-, change, db', hrounds, hrun, hrow, hbegins, hvolume⟩ :=
    insertRow_of_full hr htypes hscan habsent hfetch
  have hnumber : (r.file.pageAt (r.file.pageCount db.volume)).number.toNat =
      r.file.pageCount db.volume % 0x100000000 := UInt32.toNat_ofNat'
  have hinside : (r.file.pageAt (r.file.pageCount db.volume)).number.toNat <
      r.file.pageCount db.volume := by omega
  have hlength : db'.volume.length r.file.path = db.volume.length r.file.path := by
    rw [hvolume, Volume.length, TableFile.read_allocate]
    refine Bytes.length_overwrite ?_
    rw [Bytes.length_zeros]
    exact TableFile.end_le hinside
  refine ⟨change, db', hrounds, hrun, hnumber, ?_, hlength, ?_, hrow, hbegins⟩
  · rw [hvolume]
    exact TableFile.image?_allocate_self
  · rw [TableFile.pageCount, hlength, TableFile.pageCount]

theorem capacity_of_fetch {answer : Except StorageError Frame}
    (hrun : (fetch locking txn page access pinned).run db = (answer, db')) :
    db'.cache.capacity = db.cache.capacity := by
  rcases fetch_cases hrun with ⟨e, -, hdb⟩ | ⟨old, hf, -, hdb⟩ | ⟨p, roomy, -, -, hroom, -, hdb⟩
  · rw [hdb]
  · rw [hdb]
    simp [Cache.request, hf]
  · rw [hdb]
    rcases Cache.makeRoom_eq_ok hroom with ⟨-, rfl⟩ | ⟨victim, old, -, -, rfl⟩ <;> rfl

/-- Where nothing is changed and every page of the file is full, the search comes to its end, with
the last page resident. -/
theorem Rested.insertAmong_of_full {ns : List Nat} (row : Row) (h : db.Rested)
    (hgrants : locking.GrantsReads txn) (hr : db.catalog.registration r.file.id = .ok r)
    (hfaults : r.faults.read = false)
    (hfull : ∀ n ∈ ns, ∃ p, r.file.readPage db.volume (r.file.pageAt n) = .ok p ∧ p.Full) :
    ∃ mid, (insertAmong locking r.file txn row ns).run db = (.ok none, mid) ∧ mid.Rested ∧
      mid.cache.capacity = db.cache.capacity ∧
      ∀ n, ns.getLast? = some n →
        ∃ frame, mid.cache.frames.get? (r.file.pageAt n) = some frame := by
  induction ns generalizing db with
  | nil => exact ⟨db, rfl, h, rfl, nofun⟩
  | cons n ns ih =>
    obtain ⟨⟨p, hread, hpfull⟩, hothers⟩ := List.forall_mem_cons.1 hfull
    rcases hfetch : (fetch locking txn (r.file.pageAt n) .readOnly []).run db with
      ⟨fetched, first⟩
    rcases h.coherent.fetch hfetch with ⟨e, rfl, -⟩ | ⟨frame, rfl, hf⟩
    · rw [h.readPage_of_fetch_error hgrants hr hfaults hfetch] at hread
      cases hread
    obtain ⟨hb, -⟩ := hf.belongs hr
    have hnoroom : frame.page.emptySlots = 0 := by
      obtain ⟨q, -, hq, hcells⟩ := h.clean.cells_of_fetched hr hf
      obtain rfl : p = q := Except.ok.inj (hread.symm.trans hq)
      rw [hb.sound.emptySlots_eq_zero, ← hcells]
      exact (TableFile.belongsTo_of_readPage hread).sound.full_iff.1 hpfull
    obtain ⟨mid, hrun, hrested, hcapacity, hlast⟩ := ih (h.of_fetch hfetch)
      (hf.catalog_eq ▸ hr) (hf.volume_eq ▸ hothers)
    refine ⟨mid, ?_, hrested, hcapacity.trans (capacity_of_fetch hfetch), ?_⟩
    · rw [insertAmong, Action.run_bind_of_ok hfetch]
      simp only [hnoroom, if_true]
      exact hrun
    · cases ns with
      | nil =>
        intro m hm
        obtain rfl : n = m := by simpa using hm
        obtain ⟨-, rfl⟩ := Prod.mk.inj hrun
        exact ⟨frame, hf.resident⟩
      | cons m ns => exact hlast

/-- A cache of one page has no other page beside it. -/
theorem Coherent.absent_of_resident {q : PageId} (h : db.Coherent) (hone : db.cache.capacity = 1)
    (hf : db.cache.frames.get? page = some frame) (hne : q ≠ page) :
    db.cache.frames.get? q = none := by
  cases hq : db.cache.frames.get? q with
  | none => rfl
  | some other =>
    have hrest : (db.cache.frames.erase page).get? q = some other := by
      rw [Keyed.get?_erase_of_ne _ hne, hq]
    have hfewer := Keyed.size_erase_lt hf
    have hnonempty := Keyed.size_erase_lt hrest
    have hsize : db.cache.frames.size ≤ 1 := hone ▸ h.size_le
    omega

/-- In a cache of one page the page that is written over is never resident, so nothing stops an
insertion into a full file from writing over it. -/
theorem Rested.insertion_overwrites_page (h : db.Rested) (hone : db.cache.capacity = 1)
    (hgrants : ∀ page access s, (locking.acquire txn page access s).1 = .ok ())
    (hr : db.catalog.registration r.file.id = .ok r) (hfaults : r.faults.read = false)
    (hlarge : 0x100000000 ≤ r.file.pageCount db.volume)
    (htypes : row.schema.types = r.file.schema.types)
    (hfull : ∀ n, n < r.file.pageCount db.volume →
      ∃ p, r.file.readPage db.volume (r.file.pageAt n) = .ok p ∧ p.Full) :
    ∃ mid change db', (insertAmong locking r.file txn row
        (List.range (r.file.pageCount db.volume))).run db = (.ok none, mid) ∧
      (insertRow locking r.file txn row).run db = (.ok change, db') ∧
      Overwrote txn r row change db db' := by
  obtain ⟨mid, hscan, hrested, hcapacity, hlast⟩ := h.insertAmong_of_full row
    (fun page s => hgrants page .readOnly s) hr hfaults fun n hn => hfull n (List.mem_range.1 hn)
  obtain ⟨hvolume, hcatalog, -⟩ := passes_search hscan
  have habsent : mid.cache.frames.get? (r.file.pageAt (r.file.pageCount db.volume)) = none := by
    obtain ⟨frame, hf⟩ := hlast (r.file.pageCount db.volume - 1) (by
      rw [List.getLast?_range, if_neg (by omega)])
    refine hrested.coherent.absent_of_resident (hcapacity.trans hone) hf fun heq => ?_
    have hnumber := congrArg (fun page => page.number.toNat) heq
    simp only [TableFile.pageAt, UInt32.toNat_ofNat'] at hnumber
    omega
  let grown : Database σ := { mid with volume := (r.file.allocate mid.volume).2 }
  obtain ⟨p, hload⟩ : ∃ p, grown.load (r.file.pageAt (r.file.pageCount db.volume)) = .ok p := by
    have hi := h.coherent.tables.file _ r hr
    obtain ⟨layout, hlayout⟩ := hi.layout
    have hr' : grown.catalog.registration
        (r.file.pageAt (r.file.pageCount db.volume)).table = .ok r := hcatalog ▸ hr
    have hread : r.file.readPage grown.volume (r.file.pageAt (r.file.pageCount db.volume)) =
        Page.empty (r.file.pageAt (r.file.pageCount db.volume)) r.file.schema
          r.file.pageSize := by
      rw [← hvolume]
      exact TableFile.readPage_of_image rfl TableFile.image?_allocate_self
    exact ⟨_, (load_of_registration hr' hfaults).trans
      (hread.trans (Page.empty_eq_ok hlayout hi.schema hi.pageSize_lt))⟩
  obtain ⟨frame, after, hfetch⟩ : ∃ frame after,
      (fetch locking txn (r.file.pageAt (r.file.pageCount db.volume)) .readWrite []).run grown =
        (.ok frame, after) := by
    obtain ⟨roomy, hroom⟩ := hrested.makeRoom
    rcases hlock : locking.acquire txn (r.file.pageAt (r.file.pageCount db.volume)) .readWrite
      grown.locks with ⟨granted, locks⟩
    obtain rfl : granted = .ok () := by rw [← hgrants _ .readWrite grown.locks, hlock]
    have hroom : grown.cache.makeRoom [] = .ok roomy := hroom
    rw [fetch_of_miss [] hlock habsent hrested.coherent.loading, hload, hroom]
    exact ⟨_, _, rfl⟩
  obtain ⟨change, db', -, hrun, hover⟩ :=
    Database.insertion_overwrites_page hr hlarge htypes hscan habsent hfetch
  exact ⟨mid, change, db', hscan, hrun, hover⟩

/-- An insertion succeeds in a registered table whose file has whole pages, none of them with room
for another row. -/
structure FillsUp (locking : LockManager σ) (txn : TxnId) (r : Registration) (row : Row)
    (change : Change) (db db' : Database σ) : Prop where
  registered : db.catalog.registration r.file.id = .ok r
  aligned : r.file.pageSize ∣ db.volume.length r.file.path
  full : ∃ mid, (insertAmong locking r.file txn row
    (List.range (r.file.pageCount db.volume))).run db = (.ok none, mid)
  inserted : (insertRow locking r.file txn row).run db = (.ok change, db')

/-- A table that is stored with one row on each page. -/
def crowdedFile : TableFile := ⟨["t"], TableFile.idOf ["t"], numbers, 5⟩

/-- A database of one table, all pages of which are full. -/
def crowded (count : Nat) : Database Unit :=
  ((addTable ⟨crowdedFile, "t", "", .none⟩).run
    { withoutTables 5 1 with
      volume := ⟨[[]], Keyed.empty.put ["t"]
        ((List.range count).flatMap fun _ => [1, 0, 0, 0, 7])⟩ }).2

theorem read_crowded (count : Nat) : (crowded count).volume.read crowdedFile.path =
    (List.range count).flatMap fun _ => [1, 0, 0, 0, 7] := rfl

theorem length_crowded (count : Nat) :
    (crowded count).volume.length crowdedFile.path = count * 5 := by
  rw [Volume.length, read_crowded]
  simp [List.length_flatMap, List.map_const']

theorem image?_crowded {count n : Nat} (hn : n < count) (hcount : count ≤ 0x100000000) :
    crowdedFile.image? (crowded count).volume (crowdedFile.pageAt n) = some [1, 0, 0, 0, 7] := by
  have hoffset : (crowdedFile.pageAt n).offset crowdedFile.pageSize = n * 5 := by
    rw [PageId.offset, View.number_pageAt (by omega)]
    rfl
  have hinside : n * 5 + 5 ≤ ((crowded count).volume.read crowdedFile.path).length := by
    have hlength : ((crowded count).volume.read crowdedFile.path).length = count * 5 :=
      length_crowded count
    omega
  rw [TableFile.image?, hoffset]
  refine (Bytes.window?_of_le hinside).trans ?_
  rw [read_crowded, ← List.append_nil (List.flatMap _ _)]
  exact congrArg some (Page.take_drop_flatMap (x := n) (by simp) (by simp [hn]) [])

/-- The row of a page fills it. -/
theorem full_crowded {count n : Nat} (hn : n < count) (hcount : count ≤ 0x100000000) :
    ∃ p, crowdedFile.readPage (crowded count).volume (crowdedFile.pageAt n) = .ok p ∧ p.Full := by
  rw [TableFile.readPage_of_image rfl (image?_crowded hn hcount)]
  refine ⟨_, rfl, ?_⟩
  intro i hi
  have hi : i < 1 := hi
  obtain rfl : i = 0 := by omega
  rfl

/-- A file of 2^32 full pages. The row goes to page 0, whose row is lost, and the file is not longer
than before. -/
theorem insertion_overwrites_first_page :
    ∃ (db db' : Database Unit) (r : Registration) (change : Change),
      db.Fresh ∧ FillsUp .permissive ⟨1⟩ r (number 8).val change db db' ∧
      r.file.pageCount db.volume = 0x100000000 ∧
      change.row.place = some ⟨r.file.pageAt 0, 0⟩ ∧
      r.file.image? db.volume (r.file.pageAt 0) = some [1, 0, 0, 0, 7] ∧
      r.file.image? db'.volume (r.file.pageAt 0) = some [0, 0, 0, 0, 0] ∧
      r.file.pageCount db'.volume = 0x100000000 := by
  -- the number of pages is kept from being computed with
  obtain ⟨count, hcount⟩ : ∃ count, count = 0x100000000 := ⟨_, rfl⟩
  let r : Registration := ⟨crowdedFile, "t", "", .none⟩
  have hpages : r.file.pageCount (crowded count).volume = count := by
    rw [TableFile.pageCount, length_crowded]
    exact Nat.mul_div_cancel count (by decide)
  have haligned : r.file.pageSize ∣ (crowded count).volume.length r.file.path := by
    rw [length_crowded]
    exact Nat.dvd_mul_left 5 count
  have hfresh : (crowded count).Fresh := by
    let blank : Database Unit := { withoutTables 5 1 with volume := (crowded count).volume }
    have hblank : blank.Fresh := ⟨Catalog.intact_empty _, 1, rfl⟩
    have hlayout : Layout.ofSchema numbers 5 = .ok ⟨5, 4, 1⟩ := rfl
    have hintact : r.file.Intact blank.volume := ⟨by decide, by decide, ⟨_, hlayout⟩, haligned⟩
    exact hblank.addTable hintact fun _ _ hs => absurd hs Catalog.registration_empty
  have hr : (crowded count).catalog.registration r.file.id = .ok r :=
    Catalog.registration_eq_ok.2 (Keyed.get?_put_self _ _ _)
  have hlarge : 0x100000000 ≤ r.file.pageCount (crowded count).volume := by
    rw [hpages]
    omega
  have hfull (n : Nat) (hn : n < r.file.pageCount (crowded count).volume) :
      ∃ p, r.file.readPage (crowded count).volume (r.file.pageAt n) = .ok p ∧ p.Full := by
    rw [hpages] at hn
    exact full_crowded hn (by omega)
  obtain ⟨mid, change, db', hscan, hrun, hover⟩ : ∃ mid change db',
      (insertAmong .permissive r.file ⟨1⟩ (number 8).val
        (List.range (r.file.pageCount (crowded count).volume))).run (crowded count) =
          (.ok none, mid) ∧
      (insertRow .permissive r.file ⟨1⟩ (number 8).val).run (crowded count) = (.ok change, db') ∧
      Overwrote ⟨1⟩ r (number 8).val change (crowded count) db' :=
    hfresh.rested.insertion_overwrites_page rfl (fun _ _ _ => rfl) hr rfl hlarge rfl hfull
  have hwraps : r.file.pageAt (r.file.pageCount (crowded count).volume) = r.file.pageAt 0 := by
    rw [hpages, hcount]
    rfl
  refine ⟨crowded count, db', r, change, hfresh, ⟨hr, haligned, ⟨mid, hscan⟩, hrun⟩, ?_, ?_, ?_,
    ?_, ?_⟩
  · rw [hpages, hcount]
  · rw [hover.row_eq, hwraps]
  · exact image?_crowded (by omega) (by omega)
  · rw [← hwraps, hover.image_eq]
    rfl
  · rw [hover.pageCount_eq, hpages, hcount]

end Database

/-- Two pages of eight rows are flushed, and their file is registered anew with pages of twice the
size, of which it has one. The number of the page that is appended then is the number of a page that
is still resident, which is full, so the next insertion appends two pages instead of one. -/
theorem Session.growth_meets_resident_page :
    ∃ start steps db db' frame r change,
      Database.start ⟨33, 4, false⟩ ⟨[[]], Keyed.empty⟩ () = .ok start ∧
        Session .permissive start steps db ∧
        Database.FillsUp .permissive ⟨1⟩ r (Database.number 7).val change db db' ∧
        r.file.pageCount db.volume = 1 ∧
        db.cache.frames.get? (r.file.pageAt 1) = some frame ∧
        change.row.place = some ⟨r.file.pageAt 2, 0⟩ ∧ r.file.pageCount db'.volume = 3 := by
  let start : Database Unit :=
    ⟨⟨33, 4, false⟩, ⟨[[]], Keyed.empty⟩, Catalog.empty, Cache.ofCapacity 4, ()⟩
  let wide : Registration := ⟨⟨["t"], TableFile.idOf ["t"], Database.numbers, 66⟩, "t", "", .none⟩
  let requests : List Request :=
    .openTable [] "t" Database.numbers "t" "" ::
      List.replicate 16 (.call (.insert ⟨1⟩ wide.file.id (Database.number (-1)))) ++
        [.call .flushAll, .openFile [] "t" Database.numbers 66, .addTable wide,
          .call (.discard (wide.file.pageAt 0))]
  let result := Database.converse .permissive [] start requests
  have hsession : Session .permissive start result.1 result.2 :=
    Session.nil.converse (by simp [requests, Request.Permitted])
  have hcount : wide.file.pageCount result.2.volume = 1 := by decide +kernel
  have hresident : (result.2.cache.frames.get? (wide.file.pageAt 1)).isSome = true := by
    decide +kernel
  let scanned := (Database.insertAmong .permissive wide.file ⟨1⟩ (Database.number 7).val
    (List.range (wide.file.pageCount result.2.volume))).run result.2
  let inserted := (Database.insertRow .permissive wide.file ⟨1⟩
    (Database.number 7).val).run result.2
  have hscan : scanned = (.ok none, scanned.2) := by
    have hnone : scanned.1 = .ok none := by decide +kernel
    rw [← hnone]
  have hplace : inserted.1.toOption.bind (fun change => change.row.place) =
      some ⟨wide.file.pageAt 2, 0⟩ := by decide +kernel
  have hafter : wide.file.pageCount inserted.2.volume = 3 := by decide +kernel
  obtain ⟨frame, hframe⟩ := Option.isSome_iff_exists.1 hresident
  obtain ⟨change, hchange, hplace⟩ := Option.bind_eq_some_iff.1 hplace
  have hrun : inserted.1 = .ok change := by
    cases hanswer : inserted.1 with
    | error e =>
      rw [hanswer] at hchange
      cases hchange
    | ok found =>
      rw [hanswer] at hchange
      rw [Option.some.inj hchange]
  have hfills : Database.FillsUp .permissive ⟨1⟩ wide (Database.number 7).val change result.2
      inserted.2 :=
    ⟨Catalog.registration_eq_ok.2 (by decide +kernel), by decide +kernel, ⟨_, hscan⟩,
      Prod.ext hrun rfl⟩
  exact ⟨start, result.1, result.2, inserted.2, frame, wide, change, rfl, hsession, hfills, hcount,
    hframe, hplace, hafter⟩

/-- Neither condition can be left out: with a page for each number a file of full pages does not
grow and loses a row, and with the number of the new page among the resident ones it grows by two
pages and the row goes to the second of them. -/
theorem Session.insertion_grows_by_none_or_two :
    (∃ (db db' : Database Unit) (r : Registration) (change : Change), db.Fresh ∧
      Database.FillsUp .permissive ⟨1⟩ r (Database.number 8).val change db db' ∧
      r.file.pageCount db.volume = 0x100000000 ∧
      change.row.place = some ⟨r.file.pageAt 0, 0⟩ ∧
      r.file.image? db.volume (r.file.pageAt 0) = some [1, 0, 0, 0, 7] ∧
      r.file.image? db'.volume (r.file.pageAt 0) = some [0, 0, 0, 0, 0] ∧
      r.file.pageCount db'.volume = 0x100000000) ∧
    ∃ start steps db db' frame r change,
      Database.start ⟨33, 4, false⟩ ⟨[[]], Keyed.empty⟩ () = .ok start ∧
      Session .permissive start steps db ∧
      Database.FillsUp .permissive ⟨1⟩ r (Database.number 7).val change db db' ∧
      r.file.pageCount db.volume = 1 ∧
      db.cache.frames.get? (r.file.pageAt 1) = some frame ∧
      change.row.place = some ⟨r.file.pageAt 2, 0⟩ ∧ r.file.pageCount db'.volume = 3 :=
  ⟨Database.insertion_overwrites_first_page, Session.growth_meets_resident_page⟩

end RowStore
