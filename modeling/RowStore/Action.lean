import RowStore.Error

/-!
# Actions

A computation over a state that may fail. It hands on the state in either case, so what it did
before it failed stays done.
-/

namespace RowStore

structure Action (S α : Type) where
  run : S → Except StorageError α × S

namespace Action

variable {S T α β : Type}

instance : Monad (Action S) where
  pure a := ⟨fun s => (.ok a, s)⟩
  bind x f := ⟨fun s =>
    match x.run s with
    | (.ok a, t) => (f a).run t
    | (.error e, t) => (.error e, t)⟩

def fail (e : StorageError) : Action S α := ⟨fun s => (.error e, s)⟩

/-- Answer a question about the state. -/
def ask (f : S → α) : Action S α := ⟨fun s => (.ok (f s), s)⟩

/-- Answer a question about the state that may have no answer. -/
def query (f : S → Except StorageError α) : Action S α := ⟨fun s => (f s, s)⟩

def update (f : S → S) : Action S Unit := ⟨fun s => (.ok (), f s)⟩

/-- Take a step that cannot fail. -/
def step (f : S → α × S) : Action S α := ⟨fun s => (.ok (f s).1, (f s).2)⟩

/-- Run an action on a part of the state. -/
def within (part : T → S) (replace : S → T → T) (x : Action S α) : Action T α :=
  ⟨fun t =>
    let (answer, s) := x.run (part t)
    (answer, replace s t)⟩

@[simp] theorem run_pure (a : α) (s : S) : (pure a : Action S α).run s = (.ok a, s) := rfl

theorem run_bind (x : Action S α) (f : α → Action S β) (s : S) :
    (x >>= f).run s =
      match x.run s with
      | (.ok a, t) => (f a).run t
      | (.error e, t) => (.error e, t) := rfl

theorem run_bind_of_ok {x : Action S α} {s t : S} {a : α} (h : x.run s = (.ok a, t))
    (f : α → Action S β) : (x >>= f).run s = (f a).run t := by simp [run_bind, h]

theorem run_bind_of_error {x : Action S α} {s t : S} {e : StorageError}
    (h : x.run s = (.error e, t)) (f : α → Action S β) : (x >>= f).run s = (.error e, t) := by
  simp [run_bind, h]

theorem run_bind_eq_ok {x : Action S α} {f : α → Action S β} {s u : S} {b : β} :
    (x >>= f).run s = (.ok b, u) ↔ ∃ a t, x.run s = (.ok a, t) ∧ (f a).run t = (.ok b, u) := by
  rw [run_bind]
  rcases x.run s with ⟨_ | a, t⟩
  · simp
  · exact ⟨fun h => ⟨a, t, rfl, h⟩, by rintro ⟨_, _, h, hf⟩; cases h; exact hf⟩

theorem run_map (f : α → β) (x : Action S α) (s : S) :
    (f <$> x).run s = ((x.run s).1.map f, (x.run s).2) := by
  show (x >>= fun a => pure (f a)).run s = _
  rw [run_bind]
  rcases x.run s with ⟨_ | a, t⟩ <;> rfl

theorem run_map_eq {f : α → β} {x : Action S α} {s t : S} {b : Except StorageError β}
    (h : (f <$> x).run s = (b, t)) : ∃ a, x.run s = (a, t) ∧ b = a.map f := by
  obtain ⟨rfl, rfl⟩ := Prod.mk.inj ((run_map f x s).symm.trans h)
  exact ⟨_, rfl, rfl⟩

@[simp] theorem run_fail (e : StorageError) (s : S) :
    (fail e : Action S α).run s = (.error e, s) := rfl

@[simp] theorem run_ask (f : S → α) (s : S) : (ask f).run s = (.ok (f s), s) := rfl

@[simp] theorem run_query (f : S → Except StorageError α) (s : S) :
    (query f).run s = (f s, s) := rfl

@[simp] theorem run_update (f : S → S) (s : S) : (update f).run s = (.ok (), f s) := rfl

@[simp] theorem run_step (f : S → α × S) (s : S) : (step f).run s = (.ok (f s).1, (f s).2) := rfl

@[simp] theorem run_within (part : T → S) (replace : S → T → T) (x : Action S α) (t : T) :
    (within part replace x).run t = ((x.run (part t)).1, replace (x.run (part t)).2 t) := rfl

theorem ext_run {x y : Action S α} (h : ∀ s, x.run s = y.run s) : x = y := by
  cases x
  cases y
  congr
  exact funext h

instance : LawfulMonad (Action S) := LawfulMonad.mk' (Action S)
  (fun x => ext_run fun s => by
    show (match x.run s with
      | (.ok a, t) => (.ok a, t)
      | (.error e, t) => (.error e, t)) = x.run s
    rcases x.run s with ⟨_ | a, t⟩ <;> rfl)
  (fun _ _ => rfl)
  (fun x f g => ext_run fun s => by
    simp only [run_bind]
    rcases x.run s with ⟨_ | a, t⟩ <;> rfl)

end Action

end RowStore
