import RowStore.Cursor
import RowStore.Proofs.Page.Cells
import RowStore.Proofs.File.Tables

/-!
# Reading a file again

A name leads to the same file as long as the folders are the same, and a file of whole pages can be
opened again. What its rows tell is told by the values in the slots of its pages, so a page tells
the same in memory and after it was read back.
-/

namespace RowStore

/-- All that a row tells, but for the names of its columns. -/
def Row.facts (r : Row) : List ColumnType × List Value × Option RowId :=
  (r.schema.types, r.values, r.place)

def Cursor.Yield.facts (y : Cursor.Yield) :
    List (List ColumnType × List Value × Option RowId) × Option StorageError :=
  (y.rows.map Row.facts, y.failure)

/-- Pages of one place with the same values in their slots have rows that tell the same. -/
theorem Page.BelongsTo.facts_eq {p q : Page} {f : TableFile} (hp : p.BelongsTo f)
    (hq : q.BelongsTo f) (hid : p.id = q.id) (hcells : p.cells = q.cells) :
    p.rows.map Row.facts = q.rows.map Row.facts := by
  have hslots : p.slots.map (Option.map Row.facts) = q.slots.map (Option.map Row.facts) := by
    refine List.ext_getElem? fun i => ?_
    have hcell : p.cells[i]? = q.cells[i]? := by rw [hcells]
    simp only [Page.cells, List.getElem?_map] at hcell ⊢
    cases hps : p.slots[i]? with
    | none =>
      have hqs : q.slots[i]? = none := by simpa [hps] using hcell.symm
      rw [hqs]
    | some content =>
      obtain ⟨content', hqs, hvalues⟩ : ∃ content', q.slots[i]? = some content' ∧
          content.map Row.values = content'.map Row.values := by
        rw [hps, Option.map_some] at hcell
        obtain ⟨content', hqs, hvalues⟩ := Option.map_eq_some_iff.1 hcell.symm
        exact ⟨content', hqs, hvalues.symm⟩
      rw [hqs]
      cases content with
      | none =>
        have hnone : content' = none := by simpa using hvalues.symm
        rw [hnone]
      | some r =>
        obtain ⟨s, rfl, hrs⟩ := Option.map_eq_some_iff.1 hvalues.symm
        have hr := hp.sound.housed i r (by simp [Page.row?, hps])
        have hs := hq.sound.housed i s (by simp [Page.row?, hqs])
        have htypes : r.schema.types = s.schema.types := by
          rw [hr.types_eq, hs.types_eq, hp.schema_eq, hq.schema_eq]
        have hplace : r.place = s.place := by rw [hr.place_eq, hs.place_eq, hid]
        simp [Row.facts, htypes, hplace, hrs]
  have hrows (t : Page) : t.rows.map Row.facts =
      (t.slots.map (Option.map Row.facts)).filterMap fun content => content := by
    rw [Page.rows, List.map_filterMap, List.filterMap_map]
    rfl
  rw [hrows, hrows, hslots]

namespace TableFile

variable {f : TableFile} {v w : Volume}

/-- The rows of the pages at the given positions, read one page after another up to the first one
that cannot be read. -/
def readRows (f : TableFile) (v : Volume) : List Nat → Cursor.Yield
  | [] => ⟨[], none⟩
  | n :: ns =>
    match f.readPage v (f.pageAt n) with
    | .error e => ⟨[], some e⟩
    | .ok p =>
      let rest := readRows f v ns
      ⟨p.rows ++ rest.rows, rest.failure⟩

/-- The rows of a file. -/
def listing (f : TableFile) (v : Volume) : Cursor.Yield :=
  f.readRows v (List.range' 0 (f.pageCount v))

theorem readRows_congr (h : w.read f.path = v.read f.path) (ns : List Nat) :
    f.readRows w ns = f.readRows v ns := by
  induction ns with
  | nil => rfl
  | cons n ns ih => rw [readRows, readRows, readPage_of_read_eq h, ih]

theorem listing_congr (h : w.read f.path = v.read f.path) : f.listing w = f.listing v := by
  have hcount : f.pageCount w = f.pageCount v := by
    rw [pageCount, Volume.length, h, pageCount, Volume.length]
  rw [listing, hcount, readRows_congr h, listing]

end TableFile

namespace Volume

variable {v v' w : Volume} {folder path : Path} {name : String}

theorem locate?_congr (h : v'.folders = v.folders) (here : Path) (parts : List String) :
    v'.locate? here parts = v.locate? here parts := by
  induction parts generalizing here with
  | nil => rfl
  | cons part rest ih =>
    cases rest with
    | nil => simp only [locate?, h]
    | cons next rest => simp only [locate?, enter?, h, ih]

/-- A name leads to the same file as long as there are the same folders. -/
theorem openFile_again (h : v.openFile folder name = .ok (path, w))
    (hfolders : v'.folders = v.folders) : ∃ w', v'.openFile folder name = .ok (path, w') := by
  simp only [openFile] at h ⊢
  split at h
  · cases h
  · next hnul =>
    split at h
    · cases h
    · next hlong =>
      rw [if_neg hnul, if_neg hlong, locate?_congr hfolders]
      split at h
      · cases h
      · next found hfound =>
        obtain ⟨rfl, -⟩ := Prod.mk.inj (Except.ok.inj h)
        exact ⟨_, rfl⟩

end Volume

/-- A file of whole pages can be opened again, by a name that it was opened by before. -/
theorem TableFile.openIn_again {folder : Path} {name : String} {schema : Schema} {pageSize : Nat}
    {f : TableFile} {v v' w : Volume} (h : openIn folder name schema pageSize v = (.ok f, w))
    (hfolders : v'.folders = v.folders) (haligned : f.pageSize ∣ v'.length f.path) :
    ∃ w', openIn folder name schema pageSize v' = (.ok f, w') ∧
      ∀ path, w'.read path = v'.read path := by
  unfold openIn at h ⊢
  cases hlayout : Layout.ofSchema schema pageSize with
  | error e => simp [hlayout] at h
  | ok layout =>
    cases hopen : v.openFile folder name with
    | error e => simp [hlayout, hopen] at h
    | ok opened =>
      obtain ⟨path, w⟩ := opened
      obtain ⟨w', hopen'⟩ := Volume.openFile_again hopen hfolders
      simp only [hlayout, hopen, hopen'] at h ⊢
      split at h
      · cases h
      · obtain rfl := Except.ok.inj (Prod.mk.inj h).1
        have heven : w'.length path % pageSize = 0 := by
          rw [Volume.length, Volume.read_of_openFile hopen' path]
          exact Nat.mod_eq_zero_of_dvd haligned
        rw [if_neg (Decidable.not_not.2 heven)]
        exact ⟨w', rfl, Volume.read_of_openFile hopen'⟩

end RowStore
