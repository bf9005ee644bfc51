import RowStore.Proofs.File.Tables

/-!
# Registrations

The two maps of a catalog are inverse to each other. Adding a table takes away whatever had its
number and whatever had its name; every other table stays registered as it is. A table may be
registered anew for the same use of its file, under whatever name.
-/

namespace RowStore

/-- Two ways of opening a file by which its pages are the same: with types of columns and a size of
pages in common. -/
structure TableFile.Agrees (f g : TableFile) : Prop where
  path_eq : f.path = g.path
  id_eq : f.id = g.id
  types_eq : f.schema.types = g.schema.types
  pageSize_eq : f.pageSize = g.pageSize

theorem TableFile.Agrees.refl (f : TableFile) : f.Agrees f := ⟨rfl, rfl, rfl, rfl⟩

/-- A registration that would take the number or the name of another one. -/
def Registration.Displaces (s r : Registration) : Prop := s.file.id = r.file.id ∨ s.name = r.name

namespace Catalog

variable {c : Catalog} {r s : Registration} {id : TableId}

theorem filter_eq_self {α : Type} {o : Option α} {p : α → Bool} (h : ∀ a, o = some a → p a = true) :
    o.filter p = o := by
  cases o with
  | none => rfl
  | some a => exact Option.filter_some_pos (h a rfl)

theorem idOf_eq_ok {name : String} : c.idOf name = .ok id ↔ c.byName.get? name = some id := by
  unfold idOf
  cases c.byName.get? name <;> simp

/-- A table that is added is found under its number. -/
theorem registration_add_self (c : Catalog) (r : Registration) :
    (c.add r).registration r.file.id = .ok r :=
  registration_eq_ok.2 (Keyed.get?_put_self _ _ _)

/-- Every table is found under its own number, and by its name. -/
structure Paired (c : Catalog) : Prop where
  id_eq : ∀ (id : TableId) (r : Registration), c.byId.get? id = some r → r.file.id = id
  named : ∀ (name : String) (id : TableId), c.byName.get? name = some id ↔
    ∃ r, c.byId.get? id = some r ∧ r.name = name

theorem paired_empty : Catalog.empty.Paired := ⟨by simp [empty], by simp [empty]⟩

theorem byName_removeName (c : Catalog) (name other : String) :
    (c.removeName name).byName.get? other =
      if other = name then none else c.byName.get? other := by
  unfold removeName
  cases hname : c.byName.get? name with
  | none =>
    show c.byName.get? other = _
    split
    · next heq => rw [heq, hname]
    · rfl
  | some id => exact Keyed.get?_erase _ _ _

theorem byId_removeId (c : Catalog) (id other : TableId) :
    (c.removeId id).byId.get? other = if other = id then none else c.byId.get? other := by
  unfold removeId
  cases hid : c.byId.get? id with
  | none =>
    show c.byId.get? other = _
    split
    · next heq => rw [heq, hid]
    · rfl
  | some r => exact Keyed.get?_erase _ _ _

namespace Paired

theorem byId_removeName (h : c.Paired) (name : String) (id : TableId) :
    (c.removeName name).byId.get? id = (c.byId.get? id).filter fun r => r.name ≠ name := by
  unfold removeName
  cases hname : c.byName.get? name with
  | none =>
    refine (filter_eq_self fun r hr => ?_).symm
    apply decide_eq_true
    intro heq
    have := (h.named name id).2 ⟨r, hr, heq⟩
    simp [hname] at this
  | some other =>
    obtain ⟨found, hfound, hfname⟩ := (h.named name other).1 hname
    show (c.byId.erase other).get? id = _
    rw [Keyed.get?_erase]
    split
    · next heq => simp [heq, hfound, hfname, Option.filter_some]
    · next hne =>
      refine (filter_eq_self fun r hr => ?_).symm
      apply decide_eq_true
      intro heq
      have := (h.named name id).2 ⟨r, hr, heq⟩
      exact hne (Option.some.inj (this.symm.trans hname))

theorem byName_removeId (h : c.Paired) (id : TableId) (name : String) :
    (c.removeId id).byName.get? name = (c.byName.get? name).filter fun j => j ≠ id := by
  unfold removeId
  cases hid : c.byId.get? id with
  | none =>
    refine (filter_eq_self fun j hj => ?_).symm
    apply decide_eq_true
    rintro rfl
    obtain ⟨r, hr, -⟩ := (h.named name j).1 hj
    simp [hid] at hr
  | some r =>
    show (c.byName.erase r.name).get? name = _
    rw [Keyed.get?_erase]
    split
    · next heq => simp [heq, (h.named r.name id).2 ⟨r, hid, rfl⟩, Option.filter_some]
    · next hne =>
      refine (filter_eq_self fun j hj => ?_).symm
      apply decide_eq_true
      rintro rfl
      obtain ⟨s, hs, hsname⟩ := (h.named name j).1 hj
      rw [hid] at hs
      exact hne ((Option.some.inj hs) ▸ hsname.symm)

theorem removeName (h : c.Paired) (name : String) : (c.removeName name).Paired := by
  refine ⟨?_, ?_⟩
  · intro id r hr
    rw [h.byId_removeName] at hr
    exact h.id_eq id r (Option.filter_eq_some_iff.1 hr).1
  · intro other id
    simp only [byName_removeName, h.byId_removeName, Option.filter_eq_some_iff, decide_eq_true_eq]
    split
    · next heq => simp [heq]
    · next hne =>
      rw [h.named]
      constructor
      · rintro ⟨r, hr, rfl⟩
        exact ⟨r, ⟨hr, hne⟩, rfl⟩
      · rintro ⟨r, ⟨hr, -⟩, rfl⟩
        exact ⟨r, hr, rfl⟩

/-- What is registered under a number after a table was added. -/
theorem byId_add (h : c.Paired) (r : Registration) (id : TableId) :
    (c.add r).byId.get? id =
      if id = r.file.id then some r else (c.byId.get? id).filter fun s => s.name ≠ r.name := by
  simp only [add, Keyed.get?_put, byId_removeId, h.byId_removeName]
  split <;> rfl

/-- What a name leads to after a table was added. -/
theorem byName_add (h : c.Paired) (r : Registration) (name : String) :
    (c.add r).byName.get? name =
      if name = r.name then some r.file.id
      else (c.byName.get? name).filter fun id => id ≠ r.file.id := by
  simp only [add, Keyed.get?_put, (h.removeName r.name).byName_removeId, byName_removeName]
  split <;> rfl

theorem add (h : c.Paired) (r : Registration) : (c.add r).Paired := by
  refine ⟨?_, ?_⟩
  · intro id s hs
    rw [h.byId_add] at hs
    split at hs
    · next heq => rw [← Option.some.inj hs, heq]
    · exact h.id_eq id s (Option.filter_eq_some_iff.1 hs).1
  · intro name id
    rw [h.byId_add, h.byName_add]
    by_cases hid : id = r.file.id
    · subst hid
      by_cases hname : name = r.name
      · simp [hname]
      · simp [hname, Option.filter_eq_some_iff, Ne.symm hname]
    · by_cases hname : name = r.name
      · simp [hname, hid, Option.filter_eq_some_iff, Ne.symm hid]
      · simp only [hname, hid, if_false, Option.filter_eq_some_iff, decide_eq_true_eq, h.named]
        constructor
        · rintro ⟨⟨s, hs, rfl⟩, -⟩
          exact ⟨s, ⟨hs, hname⟩, rfl⟩
        · rintro ⟨s, ⟨hs, -⟩, rfl⟩
          exact ⟨⟨s, hs, rfl⟩, hid⟩

/-- A table stays registered as it is when another one is added that has neither its number nor its
name. -/
theorem registration_add_of_apart (h : c.Paired) (hr : c.registration id = .ok r)
    (hs : ¬ s.Displaces r) : (c.add s).registration id = .ok r := by
  have hget := registration_eq_ok.1 hr
  have hid := h.id_eq id r hget
  rw [registration_eq_ok, h.byId_add]
  have hne : id ≠ s.file.id := fun heq => hs (.inl (heq.symm.trans hid.symm))
  have hname : r.name ≠ s.name := fun heq => hs (.inr heq.symm)
  simp [hne, hget, hname]

end Paired

end Catalog

end RowStore
