/-!
# Keyed lists

A finite map kept as a list of pairs. `put` first drops the earlier entry of its key, so a map
built from `empty` by `put`, `erase` and `adjust` holds each key at most once; `WellKeyed` says so.
Reading takes the first entry of a key.
-/

namespace RowStore

/-- A finite map from `κ` to `α`. -/
structure Keyed (κ α : Type) where
  entries : List (κ × α)
  deriving DecidableEq

namespace Keyed

variable {κ α : Type} [DecidableEq κ]

def empty : Keyed κ α := ⟨[]⟩

def keys (m : Keyed κ α) : List κ := m.entries.map Prod.fst

def values (m : Keyed κ α) : List α := m.entries.map Prod.snd

def size (m : Keyed κ α) : Nat := m.entries.length

def get? (m : Keyed κ α) (k : κ) : Option α :=
  (m.entries.find? (fun e => e.1 = k)).map Prod.snd

def contains (m : Keyed κ α) (k : κ) : Bool := (m.get? k).isSome

def erase (m : Keyed κ α) (k : κ) : Keyed κ α := ⟨m.entries.filter (fun e => e.1 ≠ k)⟩

def put (m : Keyed κ α) (k : κ) (a : α) : Keyed κ α := ⟨(k, a) :: (m.erase k).entries⟩

/-- Change the value of one key where it stands; a key that is absent stays absent. -/
def adjust (m : Keyed κ α) (k : κ) (f : α → α) : Keyed κ α :=
  ⟨m.entries.map fun e => if e.1 = k then (e.1, f e.2) else e⟩

/-- No key has two entries. -/
def WellKeyed (m : Keyed κ α) : Prop := m.keys.Nodup

@[simp] theorem get?_empty (k : κ) : (empty : Keyed κ α).get? k = none := rfl

@[simp] theorem get?_erase_self (m : Keyed κ α) (k : κ) : (m.erase k).get? k = none := by
  simp [get?, erase, List.find?_filter]

theorem get?_erase_of_ne (m : Keyed κ α) {k l : κ} (h : l ≠ k) :
    (m.erase k).get? l = m.get? l := by
  simp only [get?, erase, List.find?_filter]
  congr 2
  funext e
  by_cases he : e.1 = l <;> simp [he, h]

theorem get?_erase (m : Keyed κ α) (k l : κ) :
    (m.erase k).get? l = if l = k then none else m.get? l := by
  split
  · subst l; simp
  · exact get?_erase_of_ne m ‹_›

theorem get?_put (m : Keyed κ α) (k l : κ) (a : α) :
    (m.put k a).get? l = if l = k then some a else m.get? l := by
  by_cases h : l = k
  · simp [get?, put, h]
  · rw [if_neg h, ← get?_erase_of_ne m h]
    simp [get?, put, Ne.symm h]

@[simp] theorem get?_put_self (m : Keyed κ α) (k : κ) (a : α) :
    (m.put k a).get? k = some a := by simp [get?_put]

@[simp] theorem keys_adjust (m : Keyed κ α) (k : κ) (f : α → α) :
    (m.adjust k f).keys = m.keys := by
  simp only [keys, adjust, List.map_map]
  apply List.map_congr_left
  intro e _
  simp only [Function.comp_apply]
  split <;> rfl

theorem mem_entries_of_get? {m : Keyed κ α} {k : κ} {a : α} (h : m.get? k = some a) :
    (k, a) ∈ m.entries := by
  obtain ⟨e, he, rfl⟩ := Option.map_eq_some_iff.1 h
  have hk : e.1 = k := by simpa using List.find?_some he
  exact hk ▸ List.mem_of_find?_eq_some he

@[simp] theorem size_adjust (m : Keyed κ α) (k : κ) (f : α → α) : (m.adjust k f).size = m.size := by
  simp [size, adjust]

theorem size_erase_le (m : Keyed κ α) (k : κ) : (m.erase k).size ≤ m.size :=
  List.length_filter_le _ _

/-- An erased key had an entry. -/
theorem size_erase_lt {m : Keyed κ α} {k : κ} {a : α} (h : m.get? k = some a) :
    (m.erase k).size < m.size := by
  obtain ⟨e, he, -⟩ := Option.map_eq_some_iff.1 h
  refine List.length_filter_lt_length_iff_exists.2 ⟨e, List.mem_of_find?_eq_some he, ?_⟩
  simpa using List.find?_some he

theorem size_put_le (m : Keyed κ α) (k : κ) (a : α) : (m.put k a).size ≤ m.size + 1 :=
  Nat.succ_le_succ (m.size_erase_le k)

theorem get?_adjust (m : Keyed κ α) (k l : κ) (f : α → α) :
    (m.adjust k f).get? l = if l = k then (m.get? l).map f else m.get? l := by
  obtain ⟨es⟩ := m
  induction es with
  | nil => simp [get?, adjust]
  | cons e es ih =>
    simp only [get?, adjust, List.map_cons, List.find?_cons] at ih ⊢
    have key : (if e.1 = k then (e.1, f e.2) else e).1 = e.1 := by split <;> rfl
    rw [key]
    by_cases hl : e.1 = l
    · subst hl
      simp only [decide_true, Option.map_some]
      split <;> rfl
    · simpa only [decide_eq_false hl] using ih

omit [DecidableEq κ] in
theorem wellKeyed_empty : (empty : Keyed κ α).WellKeyed := by simp [WellKeyed, keys, empty]

/-- Where no key has two entries, reading a key finds its entry. -/
theorem WellKeyed.mem_entries {m : Keyed κ α} (h : m.WellKeyed) {k : κ} {a : α} :
    (k, a) ∈ m.entries ↔ m.get? k = some a := by
  obtain ⟨es⟩ := m
  induction es with
  | nil => simp [get?]
  | cons e es ih =>
    obtain ⟨l, b⟩ := e
    obtain ⟨hnew, hrest⟩ : l ∉ es.map Prod.fst ∧ WellKeyed ⟨es⟩ := List.nodup_cons.1 h
    have ih := ih hrest
    simp only [get?, List.mem_cons, List.find?_cons, Prod.mk.injEq] at ih ⊢
    by_cases hl : l = k
    · subst hl
      have : (l, a) ∉ es := fun hmem => hnew (List.mem_map.2 ⟨_, hmem, rfl⟩)
      simp [this, eq_comm]
    · simpa [hl, Ne.symm hl] using ih

theorem WellKeyed.erase {m : Keyed κ α} (h : m.WellKeyed) (k : κ) : (m.erase k).WellKeyed :=
  List.Nodup.sublist (List.Sublist.map _ List.filter_sublist) h

theorem WellKeyed.put {m : Keyed κ α} (h : m.WellKeyed) (k : κ) (a : α) :
    (m.put k a).WellKeyed := by
  simp only [WellKeyed, keys, Keyed.put, List.map_cons, List.nodup_cons]
  refine ⟨?_, h.erase k⟩
  simp [Keyed.erase]

theorem WellKeyed.adjust {m : Keyed κ α} (h : m.WellKeyed) (k : κ) (f : α → α) :
    (m.adjust k f).WellKeyed := by
  simpa [WellKeyed] using h

theorem mem_keys {m : Keyed κ α} {k : κ} : k ∈ m.keys ↔ (m.get? k).isSome := by
  simp [keys, get?]

theorem keys_erase (m : Keyed κ α) (k : κ) : (m.erase k).keys = m.keys.filter (· ≠ k) := by
  simp only [keys, erase, List.filter_map]
  rfl

theorem erase_of_absent {m : Keyed κ α} {k : κ} (h : m.get? k = none) : m.erase k = m := by
  obtain ⟨es⟩ := m
  simp only [get?, Option.map_eq_none_iff, List.find?_eq_none] at h
  simp only [erase, mk.injEq, List.filter_eq_self]
  intro e he
  simpa using h e he

theorem size_put_of_absent {m : Keyed κ α} {k : κ} (h : m.get? k = none) (a : α) :
    (m.put k a).size = m.size + 1 := by
  simp [size, put, erase_of_absent h]

/-- Where no key has two entries, a key that is erased had one. -/
theorem WellKeyed.size_erase {m : Keyed κ α} (h : m.WellKeyed) {k : κ} {a : α}
    (hk : m.get? k = some a) : (m.erase k).size + 1 = m.size := by
  have hmem : k ∈ m.keys := mem_keys.2 (by simp [hk])
  have hkeys : (m.erase k).keys = m.keys.erase k := by
    rw [keys_erase, List.Nodup.erase_eq_filter h]
    exact List.filter_congr fun l _ => by by_cases hl : l = k <;> simp [hl]
  have hlen := congrArg List.length hkeys
  rw [List.length_erase_of_mem hmem] at hlen
  have hpos := List.length_pos_of_mem hmem
  simp only [keys, List.length_map] at hlen hpos
  simp only [size]
  omega

end Keyed

end RowStore
