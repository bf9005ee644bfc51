import Mathlib.Data.List.GetD
import RowStore.Proofs.Page.Sound

/-!
# How values are spelled in bytes

A number has one spelling. A text has many, because nothing is read of the bytes behind it up to
the width of its column: they are its padding, and a value is written with zeros there. What
columns read from a byte string is what the string spells.
-/

namespace RowStore

namespace Bytes

/-- A byte of a string that is cut in two. -/
theorem getD_cut (bytes : Bytes) (n k : Nat) :
    bytes.getD k 0 =
      if k < n then (bytes.take n).getD k 0 else (bytes.drop n).getD (k - n) 0 := by
  simp only [List.getD_eq_getElem?_getD, List.getElem?_drop]
  split
  · next h => rw [List.getElem?_take_of_lt h]
  · next h => rw [Nat.add_sub_cancel' (Nat.le_of_not_lt h)]

theorem eq_of_getD_eq {as bs : Bytes} (hl : as.length = bs.length)
    (h : ∀ k, as.getD k 0 = bs.getD k 0) : as = bs := by
  refine List.ext_getElem hl fun k ha hb => ?_
  simpa [ha, hb] using h k

end Bytes

namespace Value

/-- The bytes that a column reads as a value. -/
inductive Spelled : ColumnType → Bytes → Value → Prop
  | int (n : Int32) : Spelled .int (Bytes.ofWord n.toUInt32) (.int n)
  | text {w : Nat} {length : UInt32} {s : String} {padding : Bytes} :
      length.toNat = (Utf8.encode s).length →
      w = ColumnType.lengthBytes + (length.toNat + padding.length) →
      Spelled (.text w) (Bytes.ofWord length ++ (Utf8.encode s ++ padding)) (.text s)

/-- The places behind a text, up to the width of its column. -/
inductive Padding : ColumnType → Value → Nat → Prop
  | text {w k : Nat} {s : String} :
      ColumnType.lengthBytes + (Utf8.encode s).length ≤ k → k < w → Padding (.text w) (.text s) k

variable {t : ColumnType} {v : Value} {field other : Bytes} {k : Nat}

theorem Padding.lt_width (h : Padding t v k) : k < t.width := by
  cases h
  assumption

theorem padding_text_iff {w : Nat} {s : String} :
    Padding (.text w) (.text s) k ↔
      ColumnType.lengthBytes + (Utf8.encode s).length ≤ k ∧ k < w :=
  ⟨fun h => by cases h; constructor <;> assumption, fun h => .text h.1 h.2⟩

namespace Spelled

theorem length_eq (h : Spelled t field v) : field.length = t.width := by
  cases h with
  | int n => rfl
  | text hlength hw => simp [ColumnType.width, ColumnType.lengthBytes, hw, hlength]

/-- A value is written in one of its spellings, the one with zeros for padding. -/
theorem encode_text_eq {w : Nat} {length : UInt32} {s : String} {padding : Bytes}
    (hlength : length.toNat = (Utf8.encode s).length)
    (hw : w = ColumnType.lengthBytes + (length.toNat + padding.length)) :
    (Value.text s).encode (.text w) =
      Bytes.ofWord length ++ (Utf8.encode s ++ Bytes.zeros padding.length) := by
  have hword : (Utf8.encode s).length.toUInt32 = length := by
    rw [← hlength]
    simp
  have hrest : w - 4 - (Utf8.encode s).length = padding.length := by
    simp only [ColumnType.lengthBytes] at hw
    omega
  have hfits : Fits (.text w) (.text s) := by
    simp only [Fits, ColumnType.capacity]
    omega
  rw [Value.encode_text (by omega) hfits, hword, hrest]

/-- A value is written as it was spelled, but with zeros for padding. -/
theorem getD_encode (h : Spelled t field v) (k : Nat) :
    (Padding t v k → (v.encode t).getD k 0 = 0) ∧
      (¬ Padding t v k → (v.encode t).getD k 0 = field.getD k 0) := by
  cases h with
  | int n =>
    have hencode : (Value.int n).encode .int = Bytes.ofWord n.toUInt32 :=
      Bytes.fit_of_length_eq rfl
    exact ⟨nofun, fun _ => by rw [hencode]⟩
  | @text w length s padding hlength hw =>
    have hspelled := Spelled.text hlength hw
    rw [encode_text_eq hlength hw, ← List.append_assoc, ← List.append_assoc, padding_text_iff]
    generalize hread : Bytes.ofWord length ++ Utf8.encode s = read
    have hlen : read.length = ColumnType.lengthBytes + (Utf8.encode s).length := by
      simp [← hread, ColumnType.lengthBytes]
    by_cases hk : k < read.length
    · rw [List.getD_append _ _ _ _ hk, List.getD_append _ _ _ _ hk]
      exact ⟨fun hpadding => by omega, fun _ => rfl⟩
    · rw [List.getD_append_right _ _ _ _ (Nat.le_of_not_lt hk),
        List.getD_append_right _ _ _ _ (Nat.le_of_not_lt hk), Bytes.getD_zeros]
      refine ⟨fun _ => rfl, fun hpadding => ?_⟩
      rw [List.getD_eq_default]
      omega

/-- What stands in the padding is not read. -/
theorem congr (h : Spelled t field v) (hlen : other.length = field.length)
    (hagree : ∀ k, ¬ Padding t v k → other.getD k 0 = field.getD k 0) : Spelled t other v := by
  cases h with
  | int n =>
    obtain rfl := Bytes.eq_of_getD_eq hlen fun k => hagree k nofun
    exact .int n
  | @text w length s padding hlength hw =>
    rw [← List.append_assoc] at hlen hagree
    generalize hread : Bytes.ofWord length ++ Utf8.encode s = read at hlen hagree
    have hlenread : read.length = ColumnType.lengthBytes + (Utf8.encode s).length := by
      simp [← hread, ColumnType.lengthBytes]
    rw [List.length_append] at hlen
    have hother : other = read ++ other.drop read.length := by
      refine Bytes.eq_of_getD_eq (by simp; omega) fun k => ?_
      by_cases hk : k < read.length
      · have hout : ¬ Padding (.text w) (.text s) k := by
          rw [padding_text_iff]
          omega
        rw [hagree k hout, List.getD_append _ _ _ _ hk, List.getD_append _ _ _ _ hk]
      · rw [List.getD_append_right _ _ _ _ (Nat.le_of_not_lt hk), Bytes.getD_cut _ read.length,
          if_neg hk]
    rw [hother, ← hread, List.append_assoc]
    refine .text hlength ?_
    rw [hread, List.length_drop]
    omega

end Spelled

end Value

namespace ColumnType

open Value

variable {t : ColumnType} {v : Value} {field bytes : Bytes}

theorem decode_of_spelled (h : Spelled t field v) (rest : Bytes) :
    t.decode (field ++ rest) = .ok v := by
  unfold decode
  rw [if_neg (by simp [h.length_eq])]
  cases h with
  | int n => simp [Bytes.toWord_ofWord_append]
  | @text w length s padding hlength hw =>
    have hcap : (ColumnType.text w).capacity = length.toNat + padding.length := by
      simp [capacity, hw]
    have hdrop : (Bytes.ofWord length ++ (Utf8.encode s ++ padding) ++ rest).drop lengthBytes =
        Utf8.encode s ++ padding ++ rest := rfl
    have hword : Bytes.toWord (Bytes.ofWord length ++ (Utf8.encode s ++ padding) ++ rest) =
        length := by
      rw [List.append_assoc, Bytes.toWord_ofWord_append]
    have htake : (Utf8.encode s ++ padding ++ rest).take length.toNat = Utf8.encode s := by
      rw [List.append_assoc, List.take_left' hlength.symm]
    simp only [decodeText, hword, hdrop, htake, hcap]
    rw [if_neg (by omega), if_neg (by omega)]
    simp [Utf8.decode_encode]

theorem spelled_of_decode (h : t.decode bytes = .ok v) : Spelled t (bytes.take t.width) v := by
  unfold decode at h
  split at h
  · cases h
  · next hlen =>
    have hlen : t.width ≤ bytes.length := by omega
    cases t with
    | int =>
      obtain rfl := Except.ok.inj h
      have hword : bytes.take 4 = Bytes.ofWord (Bytes.toWord bytes).toInt32.toUInt32 := by
        simp [Bytes.ofWord_toWord hlen]
      show Spelled .int (bytes.take 4) _
      rw [hword]
      exact .int _
    | text w =>
      simp only [decodeText] at h
      split at h
      · cases h
      · split at h
        · cases h
        · next hroom hcap =>
          split at h
          · next s hs =>
            obtain rfl := Except.ok.inj h
            have hs := Utf8.decode_eq_ok_iff.1 hs
            obtain ⟨r, rfl⟩ :
                ∃ r, w = lengthBytes + ((Bytes.toWord bytes).toNat + r) := by
              simp only [capacity] at hcap
              exact ⟨w - lengthBytes - (Bytes.toWord bytes).toNat, by omega⟩
            simp only [width, lengthBytes] at hlen
            have hfield : bytes.take (lengthBytes + ((Bytes.toWord bytes).toNat + r)) =
                Bytes.ofWord (Bytes.toWord bytes) ++ (Utf8.encode s ++
                  ((bytes.drop lengthBytes).drop (Bytes.toWord bytes).toNat).take r) := by
              rw [List.take_add, List.take_add, hs, Bytes.ofWord_toWord (by omega)]
              rfl
            rw [width, hfield]
            refine .text ?_ ?_
            · rw [← hs, List.length_take, List.length_drop, lengthBytes]
              omega
            · rw [List.length_take, List.length_drop, List.length_drop, lengthBytes]
              omega
          · cases h

/-- A column reads the value that is spelled in front. -/
theorem decode_eq_ok_iff : t.decode bytes = .ok v ↔ Spelled t (bytes.take t.width) v := by
  refine ⟨spelled_of_decode, fun h => ?_⟩
  have hread := decode_of_spelled h (bytes.drop t.width)
  rwa [List.take_append_drop] at hread

end ColumnType

namespace Row

/-- The bytes that columns of the given types read as values, one column behind the other. -/
inductive Spelled : List ColumnType → Bytes → List Value → Prop
  | nil : Spelled [] [] []
  | cons {t : ColumnType} {ts : List ColumnType} {bytes : Bytes} {v : Value} {vs : List Value} :
      Value.Spelled t (bytes.take t.width) v → Spelled ts (bytes.drop t.width) vs →
      Spelled (t :: ts) bytes (v :: vs)

/-- The places that are padding of some column. -/
inductive Padding : List ColumnType → List Value → Nat → Prop
  | here {t : ColumnType} {ts : List ColumnType} {v : Value} {vs : List Value} {k : Nat} :
      Value.Padding t v k → Padding (t :: ts) (v :: vs) k
  | later {t : ColumnType} {ts : List ColumnType} {v : Value} {vs : List Value} {k : Nat} :
      Padding ts vs k → Padding (t :: ts) (v :: vs) (t.width + k)

variable {t : ColumnType} {ts : List ColumnType} {v : Value} {vs : List Value}
  {bytes other : Bytes} {k : Nat}

theorem padding_cons_iff :
    Padding (t :: ts) (v :: vs) k ↔
      if k < t.width then Value.Padding t v k else Padding ts vs (k - t.width) := by
  constructor
  · intro h
    cases h with
    | here h => rwa [if_pos h.lt_width]
    | later h => rwa [if_neg (by omega), Nat.add_sub_cancel_left]
  · intro h
    split at h
    · exact .here h
    · next hk =>
      rw [← Nat.add_sub_cancel' (Nat.le_of_not_lt hk)]
      exact .later h

theorem Padding.lt_total (h : Padding ts vs k) : k < total ColumnType.width ts := by
  induction h with
  | here h =>
    have hlt := h.lt_width
    rw [total_cons]
    omega
  | later _ ih =>
    rw [total_cons]
    omega

namespace Spelled

theorem length_eq (h : Spelled ts bytes vs) : bytes.length = total ColumnType.width ts := by
  induction h with
  | nil => rfl
  | cons hv _ ih =>
    have hfirst := hv.length_eq
    rw [List.length_take] at hfirst
    rw [List.length_drop] at ih
    rw [total_cons]
    omega

/-- A row is written as it was spelled, but with zeros for padding. -/
theorem getD_encode (h : Spelled ts bytes vs) (k : Nat) :
    (Padding ts vs k → ((List.zipWith Value.encode ts vs).flatten).getD k 0 = 0) ∧
      (¬ Padding ts vs k →
        ((List.zipWith Value.encode ts vs).flatten).getD k 0 = bytes.getD k 0) := by
  induction h generalizing k with
  | nil => exact ⟨nofun, fun _ => rfl⟩
  | @cons t ts bytes v vs hv _ ih =>
    rw [padding_cons_iff, List.zipWith_cons_cons, List.flatten_cons, Bytes.getD_cut bytes t.width]
    by_cases hk : k < t.width
    · simp only [hk, if_true]
      rw [List.getD_append _ _ _ _ (by rwa [Value.length_encode])]
      exact hv.getD_encode k
    · simp only [hk, if_false]
      rw [List.getD_append_right _ _ _ _ (by rw [Value.length_encode]; omega),
        Value.length_encode]
      exact ih (k - t.width)

/-- What stands in the padding of a row is not read. -/
theorem congr (h : Spelled ts bytes vs) (hlen : other.length = bytes.length)
    (hagree : ∀ k, ¬ Padding ts vs k → other.getD k 0 = bytes.getD k 0) :
    Spelled ts other vs := by
  induction h generalizing other with
  | nil =>
    obtain rfl := List.eq_nil_of_length_eq_zero hlen
    exact .nil
  | @cons t ts bytes v vs hv hvs ih =>
    refine .cons (hv.congr (by simp [hlen]) fun k hk => ?_) (ih (by simp [hlen]) fun k hk => ?_)
    · by_cases hlt : k < t.width
      · have hread := hagree k (by rwa [padding_cons_iff, if_pos hlt])
        rwa [Bytes.getD_cut _ t.width, Bytes.getD_cut bytes t.width, if_pos hlt, if_pos hlt]
          at hread
      · rw [List.getD_eq_default, List.getD_eq_default] <;> simp <;> omega
    · have hnot : ¬ t.width + k < t.width := by omega
      have hread := hagree (t.width + k)
        (by rwa [padding_cons_iff, if_neg hnot, Nat.add_sub_cancel_left])
      rwa [Bytes.getD_cut _ t.width, Bytes.getD_cut bytes t.width, if_neg hnot, if_neg hnot,
        Nat.add_sub_cancel_left] at hread

end Spelled

/-- Columns read the values that are spelled in front. -/
theorem decodeValues_eq_ok_iff :
    decodeValues ts bytes = .ok vs ↔ Spelled ts (bytes.take (total ColumnType.width ts)) vs := by
  induction ts generalizing bytes vs with
  | nil =>
    rw [decodeValues, total_nil, List.take_zero]
    constructor
    · intro h
      obtain rfl := Except.ok.inj h
      exact .nil
    · rintro ⟨⟩
      rfl
  | cons t ts ih =>
    have hfirst : (bytes.take (total ColumnType.width (t :: ts))).take t.width =
        bytes.take t.width := by
      rw [List.take_take, total_cons, Nat.min_eq_left (Nat.le_add_right _ _)]
    have hothers : (bytes.take (total ColumnType.width (t :: ts))).drop t.width =
        (bytes.drop t.width).take (total ColumnType.width ts) := by
      rw [List.drop_take, total_cons, Nat.add_sub_cancel_left]
    rw [decodeValues]
    constructor
    · intro h
      obtain ⟨v, hv, h⟩ := Except.bind_eq_ok.1 h
      obtain ⟨rest, hrest, h⟩ := Except.bind_eq_ok.1 h
      obtain rfl := Except.ok.inj h
      refine .cons ?_ ?_
      · rw [hfirst]
        exact ColumnType.decode_eq_ok_iff.1 hv
      · rw [hothers]
        exact ih.1 hrest
    · intro h
      generalize hall : bytes.take (total ColumnType.width (t :: ts)) = all at h
      cases h with
      | cons hv hvs =>
        rw [← hall, hfirst] at hv
        rw [← hall, hothers] at hvs
        rw [ColumnType.decode_eq_ok_iff.2 hv, ih.2 hvs]
        rfl

/-- A byte string spells one row at most. -/
theorem Spelled.unique {us : List Value} (hu : Spelled ts bytes us) (hv : Spelled ts bytes vs) :
    us = vs := by
  have hall : bytes.take (total ColumnType.width ts) = bytes :=
    List.take_of_length_le (Nat.le_of_eq hu.length_eq)
  rw [← hall] at hu hv
  exact Except.ok.inj ((decodeValues_eq_ok_iff.2 hu).symm.trans (decodeValues_eq_ok_iff.2 hv))

end Row

end RowStore
