import RowStore.Json.Reader

/-!
# The tokens of a JSON value

A value is written as a sequence of tokens, and each sequence of tokens is read as at most one
value. The reader keeps the values that are still open on a stack, so what it has read so far can be
told from its state: `Build.read` spells it out, one token is added by each step, and nothing is
left to tell when the value is complete.
-/

namespace RowStore.Json

mutual

/-- The tokens of a value. -/
def toTokens : Json → List Token
  | .null => [.null]
  | .bool b => [.bool b]
  | .natural n => [.natural n]
  | .number spelling => [.number spelling]
  | .text s => [.text s]
  | .list [] => [.openList, .closeList]
  | .list (j :: items) => .openList :: (j.toTokens ++ behindItem items)
  | .record [] => [.openRecord, .closeRecord]
  | .record ((name, j) :: members) =>
    .openRecord :: .text name :: .colon :: (j.toTokens ++ behindMember members)

/-- What follows an item of a list, up to the end of the list. -/
def behindItem : List Json → List Token
  | [] => [.closeList]
  | j :: items => .comma :: (j.toTokens ++ behindItem items)

/-- What follows a member of a record, up to the end of the record. -/
def behindMember : List (Option String × Json) → List Token
  | [] => [.closeRecord]
  | (name, j) :: members => .comma :: .text name :: .colon :: (j.toTokens ++ behindMember members)

end

/-! ## A value is read from its tokens -/

/-- No value begins with the end of a list. -/
theorem toTokens_eq_cons : ∀ j : Json, ∃ t ts, j.toTokens = t :: ts ∧ t ≠ .closeList
  | .null => ⟨_, _, rfl, nofun⟩
  | .bool _ => ⟨_, _, rfl, nofun⟩
  | .natural _ => ⟨_, _, rfl, nofun⟩
  | .number _ => ⟨_, _, rfl, nofun⟩
  | .text _ => ⟨_, _, rfl, nofun⟩
  | .list [] => ⟨_, _, rfl, nofun⟩
  | .list (_ :: _) => ⟨_, _, rfl, nofun⟩
  | .record [] => ⟨_, _, rfl, nofun⟩
  | .record (_ :: _) => ⟨_, _, rfl, nofun⟩

/-- The first item of a list is read like any other value. -/
theorem foldlM_listOpened {ts : List Token} (stack : List Open) (j : Json) :
    (j.toTokens ++ ts).foldlM Build.step ⟨stack, .listOpened⟩ =
      (j.toTokens ++ ts).foldlM Build.step ⟨.list [] :: stack, .due⟩ := by
  obtain ⟨t, us, htokens, hne⟩ := toTokens_eq_cons j
  rw [htokens, List.cons_append, List.foldlM_cons, List.foldlM_cons]
  simp only [Build.step, if_neg hne]

mutual

theorem foldlM_toTokens (stack : List Open) : ∀ j : Json,
    j.toTokens.foldlM Build.step ⟨stack, .due⟩ = some ⟨stack, .complete j⟩
  | .null => rfl
  | .bool _ => rfl
  | .natural _ => rfl
  | .number _ => rfl
  | .text _ => rfl
  | .list [] => rfl
  | .list (j :: items) => by
    rw [toTokens, List.foldlM_cons]
    show List.foldlM Build.step ⟨stack, .listOpened⟩ _ = _
    rw [foldlM_listOpened, List.foldlM_append, foldlM_toTokens (.list [] :: stack) j]
    exact foldlM_behindItem stack [] j items
  | .record [] => rfl
  | .record ((name, j) :: members) => by
    rw [toTokens, List.foldlM_cons]
    show List.foldlM Build.step ⟨.record [] name :: stack, .due⟩ _ = _
    rw [List.foldlM_append, foldlM_toTokens (.record [] name :: stack) j]
    exact foldlM_behindMember stack [] name j members

theorem foldlM_behindItem (stack : List Open) (done : List Json) (j : Json) :
    ∀ items : List Json,
      (behindItem items).foldlM Build.step ⟨.list done :: stack, .complete j⟩ =
        some ⟨stack, .complete (.list ((j :: done).reverse ++ items))⟩
  | [] => by
    rw [List.append_nil]
    rfl
  | k :: items => by
    rw [behindItem, List.foldlM_cons]
    show List.foldlM Build.step ⟨.list (j :: done) :: stack, .due⟩ _ = _
    rw [List.foldlM_append, foldlM_toTokens (.list (j :: done) :: stack) k]
    have hrest := foldlM_behindItem stack (j :: done) k items
    rwa [List.reverse_cons, List.append_assoc] at hrest

theorem foldlM_behindMember (stack : List Open) (done : List (Option String × Json))
    (name : Option String) (j : Json) : ∀ members : List (Option String × Json),
      (behindMember members).foldlM Build.step ⟨.record done name :: stack, .complete j⟩ =
        some ⟨stack, .complete (.record (((name, j) :: done).reverse ++ members))⟩
  | [] => by
    rw [List.append_nil]
    rfl
  | (next, k) :: members => by
    rw [behindMember, List.foldlM_cons]
    show List.foldlM Build.step ⟨.record ((name, j) :: done) next :: stack, .due⟩ _ = _
    rw [List.foldlM_append, foldlM_toTokens (.record ((name, j) :: done) next :: stack) k]
    have hrest := foldlM_behindMember stack ((name, j) :: done) next k members
    rwa [List.reverse_cons, List.append_assoc] at hrest

end

/-! ## Nothing else is read -/

/-- The items of a list, each with the comma behind it. -/
def itemsRead (items : List Json) : List Token := items.flatMap fun j => j.toTokens ++ [.comma]

/-- The members of a record, each with the comma behind it. -/
def membersRead (members : List (Option String × Json)) : List Token :=
  members.flatMap fun m => .text m.1 :: .colon :: (m.2.toTokens ++ [.comma])

/-- What was read of a list or record that is still open. -/
def Open.read : Open → List Token
  | .list items => .openList :: itemsRead items.reverse
  | .record members name => .openRecord :: (membersRead members.reverse ++ [.text name, .colon])

/-- What was read since the last list or record was opened. -/
def Focus.read : Focus → List Token
  | .due => []
  | .listOpened => [.openList]
  | .recordOpened => [.openRecord]
  | .nameDue members => .openRecord :: membersRead members.reverse
  | .nameRead members name => .openRecord :: (membersRead members.reverse ++ [.text name])
  | .complete value => value.toTokens

/-- The tokens that were read so far. -/
def Build.read (b : Build) : List Token := b.stack.reverse.flatMap Open.read ++ b.focus.read

theorem toTokens_list_concat (items : List Json) (j : Json) :
    (Json.list (items ++ [j])).toTokens =
      .openList :: (itemsRead items ++ (j.toTokens ++ [.closeList])) := by
  cases items with
  | nil => rfl
  | cons k items =>
    rw [List.cons_append, toTokens]
    congr 1
    induction items generalizing k with
    | nil => simp [behindItem, itemsRead]
    | cons l items ih => simp [behindItem, itemsRead, ih l]

theorem toTokens_record_concat (members : List (Option String × Json)) (name : Option String)
    (j : Json) : (Json.record (members ++ [(name, j)])).toTokens =
      .openRecord ::
        (membersRead members ++ (.text name :: .colon :: (j.toTokens ++ [.closeRecord]))) := by
  cases members with
  | nil => rfl
  | cons m members =>
    obtain ⟨first, k⟩ := m
    rw [List.cons_append, toTokens]
    congr 1
    induction members generalizing first k with
    | nil => simp [behindMember, membersRead]
    | cons m members ih => simp [behindMember, membersRead, ih m.1 m.2]

namespace Build

variable {b c : Build} {t : Token}

theorem read_start {stack : List Open} (h : start stack t = some c) :
    c.read = stack.reverse.flatMap Open.read ++ [t] := by
  cases t <;> cases h <;> rfl

theorem read_proceed {value : Json} {stack : List Open} (h : proceed value stack t = some c) :
    c.read = stack.reverse.flatMap Open.read ++ (value.toTokens ++ [t]) := by
  unfold proceed at h
  split at h <;> cases h
  · simp [read, Focus.read, Open.read, itemsRead]
  · simp [read, Focus.read, Open.read, toTokens_list_concat]
  · simp [read, Focus.read, Open.read, membersRead]
  · simp [read, Focus.read, Open.read, toTokens_record_concat]

/-- Each step reads one token. -/
theorem read_step (h : b.step t = some c) : c.read = b.read ++ [t] := by
  obtain ⟨stack, focus⟩ := b
  cases focus with
  | due => simpa [read, Focus.read] using read_start h
  | listOpened =>
    simp only [step] at h
    split at h
    · next heq =>
      obtain rfl := Option.some.inj h
      simp [read, Focus.read, toTokens, heq]
    · rw [read_start h]
      simp [read, Focus.read, Open.read, itemsRead]
  | recordOpened => cases t <;> cases h <;> simp [read, Focus.read, toTokens, membersRead]
  | nameDue members => cases t <;> cases h; simp [read, Focus.read]
  | nameRead members name =>
    simp only [step] at h
    split at h
    · next heq =>
      obtain rfl := Option.some.inj h
      simp [read, Focus.read, Open.read, heq]
    · cases h
  | complete value => simpa [read, Focus.read] using read_proceed h

theorem read_foldlM {ts : List Token} (h : ts.foldlM step b = some c) : c.read = b.read ++ ts := by
  induction ts generalizing b with
  | nil =>
    cases h
    rw [List.append_nil]
  | cons t ts ih =>
    rw [List.foldlM_cons] at h
    obtain ⟨d, hd, hrest⟩ := Option.bind_eq_some_iff.1 h
    rw [ih hrest, read_step hd, List.append_assoc, List.singleton_append]

end Build

/-- A value is read from its own tokens, and from no others. -/
theorem ofTokens?_eq_some_iff {ts : List Token} {j : Json} :
    ofTokens? ts = some j ↔ ts = j.toTokens := by
  constructor
  · intro h
    obtain ⟨b, hb, hfinish⟩ := Option.bind_eq_some_iff.1 h
    have hread := Build.read_foldlM hb
    unfold Build.finish at hfinish
    split at hfinish
    · next value hstack hfocus =>
      obtain rfl := Option.some.inj hfinish
      simpa [Build.read, hstack, hfocus, Focus.read] using hread.symm
    · cases hfinish
  · rintro rfl
    rw [ofTokens?, foldlM_toTokens]
    rfl

end RowStore.Json
