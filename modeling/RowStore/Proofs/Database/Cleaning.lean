import RowStore.Proofs.Database.Completion

/-!
# Pages that become clean

Flushing some pages makes the resident ones of them clean. The other pages, the counters, the
ranking and the locks stay as they are, whatever the tables are.
-/

namespace RowStore

namespace Cache

variable {c d e : Cache} {page : PageId} {pages : List PageId}

/-- The resident ones of some pages are clean, and the cache is otherwise as it was. -/
structure Cleans (pages : List PageId) (c d : Cache) : Prop where
  frames : ∀ q, d.frames.get? q =
    (c.frames.get? q).map fun frame => if q ∈ pages then frame.cleaned else frame
  keys_eq : d.frames.keys = c.frames.keys
  others : d = { c with frames := d.frames, setAside := d.setAside }

theorem Cleans.housed (h : Cleans pages c d) (hc : c.Housed) : d.Housed := by
  intro q frame hq
  rw [h.frames] at hq
  obtain ⟨old, hold, rfl⟩ := Option.map_eq_some_iff.1 hq
  obtain ⟨hhandle, hid⟩ := hc q old hold
  split <;> exact ⟨hhandle, hid⟩

/-- A page that is still changed is as it was. -/
theorem Cleans.unchanged {frame : Frame} (h : Cleans pages c d)
    (hf : d.frames.get? page = some frame) (hdirty : frame.page.isDirty = true) :
    page ∉ pages ∧ c.frames.get? page = some frame := by
  rw [h.frames] at hf
  obtain ⟨old, hold, rfl⟩ := Option.map_eq_some_iff.1 hf
  split at hdirty
  · cases hdirty
  · next hnot =>
    rw [if_neg hnot]
    exact ⟨hnot, hold⟩

theorem Cleans.congr {pages' : List PageId} (h : Cleans pages c d)
    (hsame : ∀ q, q ∈ pages ↔ q ∈ pages') : Cleans pages' c d := by
  refine ⟨?_, h.keys_eq, h.others⟩
  intro q
  simp only [h.frames q, hsame]

theorem Cleans.refl (c : Cache) : Cleans [] c c := ⟨fun q => by simp, rfl, rfl⟩

theorem Cleans.cons (h : Cleans [page] c d) (h' : Cleans pages d e) :
    Cleans (page :: pages) c e := by
  refine ⟨?_, h'.keys_eq.trans h.keys_eq, ?_⟩
  · intro q
    rw [h'.frames, h.frames, Option.map_map]
    congr 1
    funext frame
    grind [Frame.cleaned_cleaned]
  · rw [h'.others, h.others]

/-- A page whose frame is told by it is marked clean. -/
theorem cleans_modify {frame : Frame} (hf : c.frames.get? page = some frame)
    (hh : frame.handle.page = page) : Cleans [page] c (c.modify frame.handle .markClean) := by
  refine ⟨?_, keys_modify _ _ _, rfl⟩
  intro q
  rw [get?_modify hf hh]
  by_cases hq : q = page <;> simp [hq, hf, Frame.cleaned, Page.markClean]

end Cache

namespace Database

variable {σ : Type} {page : PageId} {pages : List PageId} {db db' : Database σ}

theorem cleans_flushPage (h : db.cache.Housed)
    (hrun : (flushPage page).run db = (.ok (), db')) :
    Cache.Cleans [page] db.cache db'.cache ∧ db'.locks = db.locks := by
  rcases flushPage_cases hrun with ⟨hf, -, rfl⟩ | ⟨frame, hf, ⟨e, -, he, -⟩ | ⟨w, -, -, rfl⟩⟩
  · refine ⟨⟨?_, rfl, rfl⟩, rfl⟩
    intro q
    by_cases hq : q = page <;> simp [hq, hf]
  · cases he
  · exact ⟨Cache.cleans_modify hf (h page frame hf).1, rfl⟩

/-- Pages become clean one after another, up to the first one that cannot be written. -/
theorem cleans_flushEach {answer : Except StorageError Unit} (h : db.cache.Housed)
    (hrun : (flushEach pages).run db = (answer, db')) :
    ∃ done rest, pages = done ++ rest ∧ Cache.Cleans done db.cache db'.cache ∧
      db'.locks = db.locks ∧ (answer = .ok () → rest = []) := by
  induction pages generalizing db with
  | nil =>
    obtain ⟨-, rfl⟩ := Prod.mk.inj hrun
    exact ⟨[], [], rfl, .refl _, rfl, fun _ => rfl⟩
  | cons page pages ih =>
    rcases hpage : (flushPage page).run db with ⟨e | ⟨⟩, mid⟩
    · obtain rfl : mid = db := by
        rcases flushPage_cases hpage with ⟨-, he, -⟩ | ⟨_, -, ⟨_, -, -, hdb⟩ | ⟨_, -, he, -⟩⟩
        · cases he
        · exact hdb
        · cases he
      rw [flushEach, Action.run_bind_of_error hpage] at hrun
      obtain ⟨rfl, rfl⟩ := Prod.mk.inj hrun
      exact ⟨[], page :: pages, rfl, .refl _, rfl, by simp⟩
    · obtain ⟨hfirst, hlocks⟩ := cleans_flushPage h hpage
      rw [flushEach, Action.run_bind_of_ok hpage] at hrun
      obtain ⟨done, rest, rfl, hrest, hlocks', hall⟩ := ih (hfirst.housed h) hrun
      exact ⟨page :: done, rest, rfl, hfirst.cons hrest, hlocks'.trans hlocks, hall⟩

theorem cleans_flushEach_ok (h : db.cache.Housed)
    (hrun : (flushEach pages).run db = (.ok (), db')) :
    Cache.Cleans pages db.cache db'.cache ∧ db'.locks = db.locks := by
  obtain ⟨done, rest, rfl, hcleans, hlocks, hall⟩ := cleans_flushEach h hrun
  rw [hall rfl, List.append_nil]
  exact ⟨hcleans, hlocks⟩

end Database

end RowStore
