import RowStore.Proofs.File.Registrations

/-!
# Looking tables up

A table is found by its number and by its name. Whatever tables were registered, under numbers and
names that were free or taken, both ways lead to the same tables: a table that is added is found by
both, whatever had its number or its name is found by neither, and no other lookup notices.
-/

namespace RowStore

namespace Catalog

/-- What happens to a catalog. -/
inductive Change where
  | add (r : Registration)
  | clear

def change (c : Catalog) : Change → Catalog
  | .add r => c.add r
  | .clear => empty

/-- The catalog after these changes, the first of them made to an empty one. -/
def ofChanges (changes : List Change) : Catalog := changes.foldl change empty

variable {c : Catalog} {r s : Registration} {id : TableId} {name : String}

/-- A lookup depends on what the map has for its key alone. -/
theorem registration_congr {d : Catalog} (h : d.byId.get? id = c.byId.get? id) :
    d.registration id = c.registration id := by
  rw [registration, registration, h]

theorem idOf_congr {d : Catalog} (h : d.byName.get? name = c.byName.get? name) :
    d.idOf name = c.idOf name := by
  rw [idOf, idOf, h]

/-! ## What one change keeps -/

/-- The two maps are inverse to each other, and neither has two entries for a key. -/
structure Kept (c : Catalog) : Prop where
  paired : c.Paired
  byId : c.byId.WellKeyed
  byName : c.byName.WellKeyed

theorem kept_empty : empty.Kept := ⟨paired_empty, Keyed.wellKeyed_empty, Keyed.wellKeyed_empty⟩

theorem wellKeyed_removeName (hi : c.byId.WellKeyed) (hn : c.byName.WellKeyed) (name : String) :
    (c.removeName name).byId.WellKeyed ∧ (c.removeName name).byName.WellKeyed := by
  unfold removeName
  split
  · exact ⟨hi.erase _, hn.erase _⟩
  · exact ⟨hi, hn⟩

theorem wellKeyed_removeId (hi : c.byId.WellKeyed) (hn : c.byName.WellKeyed) (id : TableId) :
    (c.removeId id).byId.WellKeyed ∧ (c.removeId id).byName.WellKeyed := by
  unfold removeId
  split
  · exact ⟨hi.erase _, hn.erase _⟩
  · exact ⟨hi, hn⟩

theorem Kept.add (h : c.Kept) (r : Registration) : (c.add r).Kept := by
  obtain ⟨hid, hname⟩ := wellKeyed_removeName h.byId h.byName r.name
  obtain ⟨hid, hname⟩ := wellKeyed_removeId hid hname r.file.id
  exact ⟨h.paired.add r, hid.put _ _, hname.put _ _⟩

theorem Kept.change (h : c.Kept) (e : Change) : (c.change e).Kept := by
  cases e with
  | add r => exact h.add r
  | clear => exact kept_empty

theorem Kept.foldl (h : c.Kept) (changes : List Change) :
    (changes.foldl Catalog.change c).Kept := by
  induction changes generalizing c with
  | nil => exact h
  | cons e changes ih => exact ih (h.change e)

theorem kept_ofChanges (changes : List Change) : (ofChanges changes).Kept :=
  kept_empty.foldl changes

/-! ## What is found -/

/-- The numbers and the names lead to the same tables. -/
structure Matched (c : Catalog) : Prop where
  byName_iff : ∀ name id, c.byName.get? name = some id ↔
    ∃ r, c.byId.get? id = some r ∧ r.name = name
  idOf_iff : ∀ name id, c.idOf name = .ok id ↔ Registration.name <$> c.registration id = .ok name
  id_eq : ∀ id f, c.file id = .ok f → f.id = id
  nodup_ids : c.ids.Nodup
  nodup_names : c.byName.keys.Nodup
  mem_ids : ∀ id, id ∈ c.ids ↔ ∃ r, c.registration id = .ok r

/-- Adding a table has made `d` of `c`. -/
structure Adds (c : Catalog) (r : Registration) (d : Catalog) : Prop where
  idOf_self : d.idOf r.name = .ok r.file.id
  registration_self : d.registration r.file.id = .ok r
  file_self : d.file r.file.id = .ok r.file
  table_self : d.table r.name = .ok r.file
  registration_iff : ∀ id s, d.registration id = .ok s ↔
    id = r.file.id ∧ s = r ∨ c.registration id = .ok s ∧ id ≠ r.file.id ∧ s.name ≠ r.name
  idOf_iff : ∀ name id, d.idOf name = .ok id ↔
    name = r.name ∧ id = r.file.id ∨ c.idOf name = .ok id ∧ name ≠ r.name ∧ id ≠ r.file.id
  registration_displaced : ∀ id, id ≠ r.file.id → c.idOf r.name = .ok id →
    d.registration id = .error (.tableNotFound (.number id))
  idOf_displaced : ∀ name, name ≠ r.name → c.idOf name = .ok r.file.id →
    d.idOf name = .error (.tableNotFound (.name name))
  registration_other : ∀ id, id ≠ r.file.id → c.idOf r.name ≠ .ok id →
    d.registration id = c.registration id
  idOf_other : ∀ name, name ≠ r.name → c.idOf name ≠ .ok r.file.id → d.idOf name = c.idOf name

theorem Kept.matched (h : c.Kept) : c.Matched where
  byName_iff := h.paired.named
  idOf_iff name id := by
    rw [idOf_eq_ok, h.paired.named, Except.map_eq_ok]
    simp only [registration_eq_ok]
  id_eq id f hf := by
    obtain ⟨r, hr, hf⟩ := Except.bind_eq_ok.1 hf
    obtain rfl := Except.ok.inj hf
    exact h.paired.id_eq id r (registration_eq_ok.1 hr)
  nodup_ids := h.byId
  nodup_names := h.byName
  mem_ids id := by
    simp only [ids, Keyed.mem_keys, Option.isSome_iff_exists, registration_eq_ok]

theorem Kept.adds (h : c.Kept) (r : Registration) : c.Adds r (c.add r) := by
  have hid := h.paired.byId_add r
  have hname := h.paired.byName_add r
  have hregistered : (c.add r).registration r.file.id = .ok r := by
    rw [registration_eq_ok, hid, if_pos rfl]
  have hnamed : (c.add r).idOf r.name = .ok r.file.id := by
    rw [idOf_eq_ok, hname, if_pos rfl]
  have hfile : (c.add r).file r.file.id = .ok r.file := by
    rw [file, hregistered]
    rfl
  refine
    { idOf_self := hnamed
      registration_self := hregistered
      file_self := hfile
      table_self := by
        rw [table, hnamed]
        exact hfile
      registration_iff := ?_
      idOf_iff := ?_
      registration_displaced := ?_
      idOf_displaced := ?_
      registration_other := ?_
      idOf_other := ?_ }
  · intro id s
    rw [registration_eq_ok, registration_eq_ok, hid]
    split
    · next heq => simp [heq, eq_comm]
    · next hne => simp [hne, Option.filter_eq_some_iff]
  · intro name id
    rw [idOf_eq_ok, idOf_eq_ok, hname]
    split
    · next heq => simp [heq, eq_comm]
    · next hne => simp [hne, Option.filter_eq_some_iff]
  · intro id hne hholder
    obtain ⟨s, hs, hsname⟩ := (h.paired.named r.name id).1 (idOf_eq_ok.1 hholder)
    have hgone : (c.add r).byId.get? id = none := by simp [hid, hne, hs, hsname, Option.filter_some]
    rw [registration, hgone]
  · intro name hne hholder
    have hgone : (c.add r).byName.get? name = none := by
      simp [hname, hne, idOf_eq_ok.1 hholder, Option.filter_some]
    rw [idOf, hgone]
  · intro id hne hfree
    refine registration_congr ?_
    rw [hid, if_neg hne]
    refine filter_eq_self fun s hs => decide_eq_true fun heq => hfree ?_
    exact idOf_eq_ok.2 ((h.paired.named r.name id).2 ⟨s, hs, heq⟩)
  · intro name hne hfree
    refine idOf_congr ?_
    rw [hname, if_neg hne]
    refine filter_eq_self fun id hi => decide_eq_true fun heq => hfree ?_
    exact idOf_eq_ok.2 (heq ▸ hi)

/-- After whatever was registered and cleared, numbers and names lead to the same tables, and the
table that is registered next takes the place of those, and only those, that have its number or its
name. -/
theorem lookups_agree (changes : List Change) (r : Registration) :
    (ofChanges changes).Matched ∧ (ofChanges changes).Adds r ((ofChanges changes).add r) :=
  ⟨(kept_ofChanges changes).matched, (kept_ofChanges changes).adds r⟩

/-- The number of one table is registered under the name of another one: both tables go. -/
example :
    let file (id : TableId) : TableFile := ⟨["t"], id, ⟨[⟨.int, none⟩]⟩, 9⟩
    let c := ofChanges [.add ⟨file 1, "a", "", .none⟩, .add ⟨file 2, "b", "", .none⟩,
      .add ⟨file 1, "b", "", .none⟩]
    c.ids = [1] ∧ c.idOf "b" = .ok 1 ∧ c.idOf "a" = .error (.tableNotFound (.name "a")) :=
  ⟨rfl, rfl, rfl⟩

end Catalog

end RowStore
