import RowStore.Row
import RowStore.Value.Lemmas

/-!
# Rows: reading undoes writing

A valid row takes exactly the bytes that its schema says, and reading them back yields its values.
-/

namespace RowStore.Row

open Value

/-- The values that columns of the given types take, position by position. -/
inductive AllFit : List ColumnType → List Value → Prop
  | nil : AllFit [] []
  | cons {t : ColumnType} {v : Value} {ts : List ColumnType} {vs : List Value} :
    Fits t v → AllFit ts vs → AllFit (t :: ts) (v :: vs)

theorem AllFit.length_eq {ts : List ColumnType} {vs : List Value} (h : AllFit ts vs) :
    vs.length = ts.length := by
  induction h with
  | nil => rfl
  | cons _ _ ih => simp [ih]

theorem checkFrom_eq_ok_iff {index : Nat} {ts : List ColumnType} {vs : List Value}
    (hl : vs.length = ts.length) : checkFrom index ts vs = .ok () ↔ AllFit ts vs := by
  induction ts generalizing index vs with
  | nil =>
    obtain rfl : vs = [] := List.eq_nil_of_length_eq_zero hl
    exact ⟨fun _ => .nil, fun _ => rfl⟩
  | cons t ts ih =>
    obtain ⟨v, vs, rfl⟩ : ∃ v us, vs = v :: us := List.exists_cons_of_length_eq_add_one hl
    have hl : vs.length = ts.length := by simpa using hl
    cases hc : v.check index t with
    | error e =>
      refine ⟨fun h => by simp [checkFrom, hc, bind, Except.bind] at h, fun h => ?_⟩
      cases h with
      | cons hv _ => rw [check_eq_ok_iff.2 hv] at hc; cases hc
    | ok _ =>
      have hv := check_eq_ok_iff.1 hc
      simp only [checkFrom, hc, bind, Except.bind, ih hl]
      exact ⟨.cons hv, fun h => by cases h; assumption⟩

theorem allFit_iff {ts : List ColumnType} {vs : List Value} :
    AllFit ts vs ↔ vs.length = ts.length ∧
      ∀ (i : Nat) (t : ColumnType) (v : Value), ts[i]? = some t → vs[i]? = some v → Fits t v := by
  constructor
  · intro h
    refine ⟨h.length_eq, ?_⟩
    induction h with
    | nil => intro i t v ht; simp at ht
    | cons hv _ ih =>
      intro i t v ht hv'
      cases i with
      | zero =>
        obtain rfl := Option.some.inj ht
        obtain rfl := Option.some.inj hv'
        exact hv
      | succ i => exact ih i t v ht hv'
  · rintro ⟨hl, h⟩
    induction ts generalizing vs with
    | nil =>
      obtain rfl : vs = [] := List.eq_nil_of_length_eq_zero hl
      exact .nil
    | cons t ts ih =>
      obtain ⟨v, vs, rfl⟩ : ∃ v us, vs = v :: us := List.exists_cons_of_length_eq_add_one hl
      exact .cons (h 0 t v rfl rfl)
        (ih (by simpa using hl) fun i t v ht hv => h (i + 1) t v (by simpa using ht)
          (by simpa using hv))

theorem valid_iff_allFit {r : Row} : r.Valid ↔ AllFit r.schema.types r.values := by
  have hl := r.schema.length_types.symm
  rw [allFit_iff]
  constructor
  · rintro ⟨hlen, hc⟩
    exact ⟨hl ▸ hlen, fun i t v ht hv => check_eq_ok_iff.1 (hc i t v ht hv)⟩
  · rintro ⟨hlen, hf⟩
    exact ⟨hl ▸ hlen, fun i t v ht hv => check_eq_ok_iff.2 (hf i t v ht hv)⟩

/-- A row can be made of exactly the values that its columns take. -/
theorem ofValues_eq_ok_iff {schema : Schema} {values : List Value} {r : Row} :
    ofValues schema values = .ok r ↔
      AllFit schema.types values ∧ r = ⟨schema, values, none⟩ := by
  have hl := schema.length_types.symm
  unfold ofValues
  split
  · next hne =>
    refine ⟨fun h => by simp at h, fun h => absurd (hl ▸ h.1.length_eq) hne⟩
  · next heq =>
    have heq : values.length = schema.types.length := by omega
    cases hc : checkFrom 0 schema.types values with
    | error e =>
      refine ⟨fun h => by simp [bind, Except.bind] at h, fun h => ?_⟩
      rw [(checkFrom_eq_ok_iff heq).2 h.1] at hc
      cases hc
    | ok _ =>
      have := (checkFrom_eq_ok_iff heq).1 hc
      simp [bind, Except.bind, pure, Except.pure, this, eq_comm]

theorem length_encode {r : Row} (h : AllFit r.schema.types r.values) :
    r.encode.length = r.schema.rowSize := by
  rw [encode, Schema.rowSize]
  generalize r.schema.types = ts at h
  generalize r.values = vs at h
  induction h with
  | nil => rfl
  | cons _ _ ih => simp [ih]

theorem decodeValues_encode_append {ts : List ColumnType} {vs : List Value}
    (ht : ∀ t ∈ ts, Schema.TypeValid t) (h : AllFit ts vs) (hc : ∀ v ∈ vs, v.Countable)
    (rest : Bytes) :
    decodeValues ts ((List.zipWith Value.encode ts vs).flatten ++ rest) = .ok vs := by
  induction h with
  | nil => rfl
  | cons hv _ ih =>
    simp only [List.forall_mem_cons] at ht hc
    simp only [decodeValues, List.zipWith_cons_cons, List.flatten_cons, List.append_assoc]
    rw [ColumnType.decode_encode_append ht.1 hv hc.1,
      List.drop_left' (Value.length_encode _ _)]
    simp [ih ht.2 hc.2, bind, Except.bind, pure, Except.pure]

end RowStore.Row
