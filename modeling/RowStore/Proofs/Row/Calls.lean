import RowStore.Action
import RowStore.Proofs.File.Pages
import RowStore.Proofs.Row.Fields

/-!
# Calls on a row

Setting a value is told here as it happens, in the row that is called. A call that fails does so
before it writes anything. Whether a row was made of values, read from a page or bound to another
schema, and whatever calls it was made, each column has a value that it takes. So the bytes of the
row are one field behind the other, each as wide as its column.
-/

namespace RowStore

namespace Bytes

theorem window?_append (front bytes rest : Bytes) :
    window? (front ++ (bytes ++ rest)) front.length bytes.length = some bytes := by
  rw [window?_of_le (by simp only [List.length_append]; omega), List.drop_left, List.take_left]

end Bytes

namespace Schema

/-- The type of a column is asked of the schema, or there is no such column. -/
theorem column_cases (s : Schema) (index : Nat) :
    (∃ c, s.column index = .ok c ∧ s.types[index]? = some c.type) ∨
      s.columnCount ≤ index ∧ s.types[index]? = none ∧
        s.column index = .error (.indexOutOfBounds index s.columnCount) := by
  unfold column
  split
  · next c hc => exact .inl ⟨c, rfl, by simp [types, hc]⟩
  · next hnone => exact .inr ⟨List.getElem?_eq_none_iff.1 hnone, by simp [types, hnone], rfl⟩

end Schema

namespace Row

open Value

variable {r s : Row} {e : StorageError} {schema : Schema} {values : List Value}

/-! ## Writing -/

/-- Write the values of a row behind what a buffer holds, one after the other. -/
def appendTo (r : Row) (buffer : Bytes) : Bytes :=
  (r.schema.types.zip r.values).foldl (fun written f => f.2.appendTo f.1 written) buffer

theorem appendTo_eq (r : Row) (buffer : Bytes) : r.appendTo buffer = buffer ++ r.encode := by
  rw [appendTo, encode]
  generalize r.schema.types = ts
  generalize r.values = vs
  induction ts generalizing vs buffer with
  | nil => simp
  | cons t ts ih =>
    cases vs with
    | nil => simp
    | cons v vs =>
      rw [List.zip_cons_cons, List.foldl_cons, ih, Value.appendTo_eq, List.zipWith_cons_cons,
        List.flatten_cons, List.append_assoc]

/-- Rows that are the same leave the same bytes, whatever their columns are called and wherever
they are stored. -/
theorem Same.appendTo_eq (h : s.Same r) (buffer : Bytes) :
    s.appendTo buffer = r.appendTo buffer := by
  rw [appendTo, appendTo, h.1, h.2]

/-- The field of a column stands behind those of the columns before it. -/
theorem AllFit.exists_field {ts : List ColumnType} {vs : List Value} (h : AllFit ts vs) {i : Nat}
    {t : ColumnType} {v : Value} (ht : ts[i]? = some t) (hv : vs[i]? = some v) :
    ∃ front rest : Bytes, front.length = total ColumnType.width (ts.take i) ∧
      (List.zipWith Value.encode ts vs).flatten = front ++ (v.encode t ++ rest) := by
  induction h generalizing i with
  | nil => cases ht
  | @cons u w us ws _ _ ih =>
    cases i with
    | zero =>
      obtain rfl := Option.some.inj ht
      obtain rfl := Option.some.inj hv
      exact ⟨[], _, rfl, rfl⟩
    | succ i =>
      obtain ⟨front, rest, hlen, hfields⟩ := ih (i := i) (by simpa using ht) (by simpa using hv)
      refine ⟨w.encode u ++ front, rest, by simp [hlen], ?_⟩
      rw [List.zipWith_cons_cons, List.flatten_cons, hfields, List.append_assoc]

/-! ## Setting a value -/

/-- A value is set in a column that there is and that takes it. -/
theorem setValue_eq_ok_iff {i : Nat} {v : Value} :
    r.setValue i v = .ok s ↔
      (∃ t, r.schema.types[i]? = some t ∧ v.check i t = .ok ()) ∧
        s = { r with values := r.values.set i v } := by
  unfold setValue
  rcases r.schema.column_cases i with ⟨c, hc, ht⟩ | ⟨-, ht, hc⟩
  · cases hcheck : v.check i c.type with
    | error e => simp [hc, ht, hcheck, bind, Except.bind]
    | ok _ => simp [hc, ht, hcheck, bind, Except.bind, pure, Except.pure, eq_comm]
  · simp [hc, ht, bind, Except.bind]

theorem setValue_eq_error_iff {i : Nat} {v : Value} :
    r.setValue i v = .error e ↔
      r.schema.columnCount ≤ i ∧ e = .indexOutOfBounds i r.schema.columnCount ∨
        ∃ t, r.schema.types[i]? = some t ∧ v.check i t = .error e := by
  unfold setValue
  rcases r.schema.column_cases i with ⟨c, hc, ht⟩ | ⟨hle, ht, hc⟩
  · have hlt : ¬ r.schema.columnCount ≤ i := by
      rw [← Schema.length_types]
      exact Nat.not_le_of_lt (List.getElem?_eq_some_iff.1 ht).1
    cases hcheck : v.check i c.type with
    | error e => simp [hc, ht, hcheck, hlt, bind, Except.bind]
    | ok _ => simp [hc, ht, hcheck, hlt, bind, Except.bind, pure, Except.pure]
  · simp [hc, ht, hle, bind, Except.bind, eq_comm]

namespace InPlace

/-- Replace the value at `index`, which the column there must take. -/
def setValue (index : Nat) (v : Value) : Action Row Unit := do
  -- nothing is written before both questions are answered
  let c ← .query fun r => r.schema.column index
  .query fun _ => v.check index c.type
  .update fun r => { r with values := r.values.set index v }

/-- Setting a value in place comes to the same as handing back the changed row, or the old one. -/
theorem run_setValue (r : Row) (index : Nat) (v : Value) :
    (setValue index v).run r =
      match r.setValue index v with
      | .ok s => (.ok (), s)
      | .error e => (.error e, r) := by
  simp only [setValue, Row.setValue, Action.run_bind, Action.run_query, Action.run_update]
  cases hc : r.schema.column index with
  | error e => rfl
  | ok c =>
    cases hcheck : v.check index c.type with
    | error e => simp [hcheck, bind, Except.bind]
    | ok _ => simp [hcheck, bind, Except.bind, pure, Except.pure]

end InPlace

/-- What setting a value comes to, by the answer and the row after it. -/
structure Setting (r : Row) (i : Nat) (v : Value) (answer : Except StorageError Unit) (s : Row) :
    Prop where
  ok_iff : answer = .ok () ↔ ∃ t, r.schema.types[i]? = some t ∧ v.check i t = .ok ()
  set : answer = .ok () → s.schema = r.schema ∧ s.place = r.place ∧
    ∀ j, s.values[j]? = if j = i then some v else r.values[j]?
  failed : ∀ e, answer = .error e → s = r ∧
    (r.schema.columnCount ≤ i ∧ e = .indexOutOfBounds i r.schema.columnCount ∨
      ∃ t, r.schema.types[i]? = some t ∧ v.check i t = .error e)

theorem Valid.setting (h : r.Valid) (i : Nat) (v : Value) :
    r.Setting i v ((InPlace.setValue i v).run r).1 ((InPlace.setValue i v).run r).2 := by
  rw [InPlace.run_setValue]
  cases hs : r.setValue i v with
  | error e =>
    refine ⟨iff_of_false nofun fun hok => ?_, nofun, ?_⟩
    · rw [setValue_eq_ok_iff.2 ⟨hok, rfl⟩] at hs
      cases hs
    · rintro _ ⟨⟩
      exact ⟨rfl, setValue_eq_error_iff.1 hs⟩
  | ok s =>
    obtain ⟨hok, rfl⟩ := setValue_eq_ok_iff.1 hs
    refine ⟨iff_of_true rfl hok, fun _ => ⟨rfl, rfl, fun j => ?_⟩, nofun⟩
    obtain ⟨t, ht, -⟩ := hok
    have hlt : i < r.values.length :=
      h.length_eq ▸ r.schema.length_types ▸ (List.getElem?_eq_some_iff.1 ht).1
    simp only [List.getElem?_set, hlt, if_true, eq_comm]

/-! ## Rows that are reached -/

/-- A call on a row, with whatever arguments. -/
inductive Edit where
  | setValue (index : Nat) (v : Value)
  | setPlace (place : Option RowId)
  | rebind (schema : Schema)

/-- The row after a call, which may have failed. -/
def edit (r : Row) : Edit → Row
  | .setValue index v => ((InPlace.setValue index v).run r).2
  | .setPlace place => { r with place := place }
  | .rebind schema => blank schema

/-- The rows that are made of values or read from a page, and their copies, after any calls. A copy
of a row is the row itself. -/
inductive Obtained : Row → Prop
  | made {schema : Schema} {values : List Value} {r : Row} :
      ofValues schema values = .ok r → Obtained r
  | read {page : PageId} {schema : Schema} {pageSize slot : Nat} {image : Bytes} {p : Page}
      {r : Row} : Page.decode page schema pageSize image = .ok p → p.row? slot = some r → Obtained r
  | edit {r : Row} (e : Edit) : Obtained r → Obtained (r.edit e)

theorem Obtained.foldl (h : r.Obtained) (edits : List Edit) :
    (edits.foldl Row.edit r).Obtained := by
  induction edits generalizing r with
  | nil => exact h
  | cons e edits ih => exact ih (h.edit e)

theorem AllFit.blank (ts : List ColumnType) : AllFit ts (ts.map ColumnType.blank) := by
  induction ts with
  | nil => exact .nil
  | cons t ts ih =>
    refine .cons ?_ ih
    cases t with
    | int => trivial
    | text w => exact Nat.zero_le _

theorem AllFit.set {ts : List ColumnType} {vs : List Value} {i : Nat} {t : ColumnType} {v : Value}
    (h : AllFit ts vs) (ht : ts[i]? = some t) (hv : Fits t v) : AllFit ts (vs.set i v) := by
  induction h generalizing i with
  | nil => cases ht
  | @cons u w us ws hu hrest ih =>
    cases i with
    | zero =>
      obtain rfl := Option.some.inj ht
      exact .cons hv hrest
    | succ i => exact .cons hu (ih (by simpa using ht))

/-- What one call keeps. -/
theorem Valid.edit (h : r.Valid) (e : Edit) : (r.edit e).Valid := by
  cases e with
  | setValue i v =>
    rw [Row.edit, InPlace.run_setValue]
    cases hs : r.setValue i v with
    | error e => exact h
    | ok s =>
      obtain ⟨⟨t, ht, hv⟩, rfl⟩ := setValue_eq_ok_iff.1 hs
      exact valid_iff_allFit.2 ((valid_iff_allFit.1 h).set ht (check_eq_ok_iff.1 hv))
  | setPlace place => exact ⟨h.length_eq, h.check⟩
  | rebind schema => exact valid_iff_allFit.2 (.blank schema.types)

/-- What any number of calls keeps. -/
theorem Obtained.valid (h : r.Obtained) : r.Valid := by
  induction h with
  | made h => exact valid_of_ofValues h
  | read h hr =>
    have hhoused := (Page.Sound.of_decode h).housed _ _ hr
    exact valid_iff_allFit.2 (hhoused.types_eq ▸ hhoused.fits)
  | edit e _ ih => exact ih.edit e

/-! ## Rows and their bytes -/

/-- What making a row of values comes to. -/
structure Making (schema : Schema) (values : List Value) (answer : Except StorageError Row) :
    Prop where
  ok_iff : (∃ r, answer = .ok r) ↔ values.length = schema.columnCount ∧
    ∀ (i : Nat) (t : ColumnType) (v : Value),
      schema.types[i]? = some t → values[i]? = some v → v.check i t = .ok ()
  made : ∀ r, answer = .ok r → r = ⟨schema, values, none⟩

theorem making_ofValues (schema : Schema) (values : List Value) :
    Making schema values (ofValues schema values) := by
  have hvalid : Row.Valid ⟨schema, values, none⟩ ↔ AllFit schema.types values := valid_iff_allFit
  refine ⟨⟨?_, ?_⟩, fun r hr => (ofValues_eq_ok_iff.1 hr).2⟩
  · rintro ⟨r, hr⟩
    obtain ⟨hlen, hcheck⟩ := hvalid.2 (ofValues_eq_ok_iff.1 hr).1
    exact ⟨hlen, hcheck⟩
  · rintro ⟨hlen, hcheck⟩
    exact ⟨_, ofValues_eq_ok_iff.2 ⟨hvalid.1 ⟨hlen, hcheck⟩, rfl⟩⟩

/-- A row that is valid, is written field by field and is changed one value at a time. -/
structure Conforming (r : Row) : Prop extends Valid r where
  writes : ∀ buffer, ∃ bytes : Bytes, bytes.length = r.schema.rowSize ∧
    r.appendTo buffer = buffer ++ bytes ∧
    ∀ i t v, r.schema.types[i]? = some t → r.values[i]? = some v →
      bytes.window? (total ColumnType.width (r.schema.types.take i)) t.width =
        some (v.appendTo t [])
  same : ∀ s : Row, s.Same r → ∀ buffer, s.appendTo buffer = r.appendTo buffer
  setting : ∀ i v, r.Setting i v ((InPlace.setValue i v).run r).1 ((InPlace.setValue i v).run r).2

theorem Valid.conforming (h : r.Valid) : r.Conforming where
  toValid := h
  writes buffer := by
    have hfit := valid_iff_allFit.1 h
    refine ⟨r.encode, length_encode hfit, r.appendTo_eq buffer, fun i t v ht hv => ?_⟩
    obtain ⟨front, rest, hlen, hfields⟩ := hfit.exists_field ht hv
    have hwindow := Bytes.window?_append front (v.encode t) rest
    rw [hlen, v.length_encode t, ← hfields] at hwindow
    rw [Value.appendTo_eq, List.nil_append]
    exact hwindow
  same s hs buffer := hs.appendTo_eq buffer
  setting := h.setting

/-- A row that was made or read in any way and was changed by any calls has a value in each column
that the column takes, and writes them as its schema lays them out. Each call on it that fails
leaves it as it was, and a row can be made of values if and only if their columns take them. -/
theorem Obtained.conforms (h : r.Obtained) :
    r.Conforming ∧ ∀ schema values, Making schema values (ofValues schema values) :=
  ⟨h.valid.conforming, making_ofValues⟩

/-- A row of a page is called five times. Three calls fail: the text is too long, there is no such
column, and the value is of the other kind. -/
theorem Obtained.conforms_refused_calls :
    ∃ (p : Page) (stored changed renamed : Row),
      Page.decode ⟨7, 0⟩ ⟨[⟨.int, none⟩, ⟨.text 6, none⟩]⟩ 11 [1, 0, 0, 0, 5, 0, 0, 0, 1, 97, 7] =
        .ok p ∧ p.row? 0 = some stored ∧
      changed = [.setValue 1 (.text "ñ"), .setValue 1 (.text "añ"), .setValue 2 (.int 0),
        .setPlace none, .setValue 0 (.text "")].foldl Row.edit stored ∧
      changed.values = [.int 5, .text "ñ"] ∧
      ofValues ⟨[⟨.int, some "k"⟩, ⟨.text 6, none⟩]⟩ [.int 5, .text "ñ"] = .ok renamed ∧
      renamed.appendTo [9] = [9, 0, 0, 0, 5, 0, 0, 0, 2, 0xC3, 0xB1] ∧
      changed.appendTo [9] = renamed.appendTo [9] ∧ changed.Conforming := by
  obtain ⟨p, hp⟩ : ∃ p, Page.decode ⟨7, 0⟩ ⟨[⟨.int, none⟩, ⟨.text 6, none⟩]⟩ 11
    [1, 0, 0, 0, 5, 0, 0, 0, 1, 97, 7] = .ok p := ⟨_, rfl⟩
  obtain ⟨stored, hstored⟩ : ∃ stored, p.row? 0 = some stored := by
    cases hp
    exact ⟨_, rfl⟩
  obtain ⟨hconforming, -⟩ := ((Obtained.read hp hstored).foldl [.setValue 1 (.text "ñ"),
    .setValue 1 (.text "añ"), .setValue 2 (.int 0), .setPlace none,
    .setValue 0 (.text "")]).conforms
  refine ⟨p, stored, _, _, hp, hstored, rfl, ?_, rfl, rfl,
    (hconforming.same _ ?_ [9]).symm, hconforming⟩
  all_goals
    cases hp
    cases hstored
    decide

end Row

end RowStore
