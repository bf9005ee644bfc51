import RowStore.Schema
import RowStore.Text.Utf8.Lemmas
import RowStore.Value

/-!
# Values: reading undoes writing

A column reads back every value that it takes, whatever follows the value, as long as the length of
a text fits the word in front of it. What a column reads, it also takes.
-/

namespace RowStore

namespace Bytes

theorem fit_of_le {n : Nat} {bytes : Bytes} (h : bytes.length ≤ n) :
    fit n bytes = bytes ++ zeros (n - bytes.length) := by
  simp [fit, List.take_of_length_le h]

end Bytes

namespace Value

/-- A value that a column of the given type takes. -/
def Fits : ColumnType → Value → Prop
  | .int, .int _ => True
  | .text w, .text s => (Utf8.encode s).length ≤ (ColumnType.text w).capacity
  | _, _ => False

theorem check_eq_ok_iff {index : Nat} {type : ColumnType} {v : Value} :
    v.check index type = .ok () ↔ Fits type v := by
  cases type <;> cases v <;> simp [check, Fits]

/-- A text whose length a word can hold. -/
def Countable : Value → Prop
  | .int _ => True
  | .text s => (Utf8.encode s).length < 0x100000000

theorem encode_text {w : Nat} {s : String} (hw : ColumnType.lengthBytes ≤ w)
    (h : Fits (.text w) (.text s)) :
    (Value.text s).encode (.text w) =
      Bytes.ofWord (Utf8.encode s).length.toUInt32 ++
        (Utf8.encode s ++ Bytes.zeros (w - 4 - (Utf8.encode s).length)) := by
  have hle : (Utf8.encode s).length ≤ w - 4 := h
  have hw : 4 ≤ w := hw
  have htake : (Utf8.encode s).take (ColumnType.text w).capacity = Utf8.encode s :=
    List.take_of_length_le h
  simp only [encode, payload, htake, ColumnType.width]
  rw [Bytes.fit_of_le (by simp; omega), List.append_assoc]
  congr 3
  simp
  omega

end Value

namespace ColumnType

open Value

theorem decode_encode_append {type : ColumnType} {v : Value} (ht : Schema.TypeValid type)
    (hv : Fits type v) (hc : v.Countable) (rest : Bytes) :
    type.decode (v.encode type ++ rest) = .ok v := by
  have hlen : ¬ (v.encode type ++ rest).length < type.width := by simp
  unfold decode
  rw [if_neg hlen]
  match type, v, hv with
  | .int, .int n, _ =>
    have : (Value.int n).encode .int = Bytes.ofWord n.toUInt32 :=
      Bytes.fit_of_length_eq (by rfl)
    simp [this, Bytes.toWord_ofWord_append]
  | .text w, .text s, hv =>
    have hw : 4 < w := ht
    have hle : (Utf8.encode s).length ≤ w - 4 := hv
    have hc : (Utf8.encode s).length < 0x100000000 := hc
    have hword : (Utf8.encode s).length.toUInt32.toNat = (Utf8.encode s).length := by
      simp; omega
    have hdrop : ∀ (b : Bytes) (w : UInt32), (Bytes.ofWord w ++ b).drop lengthBytes = b :=
      fun _ _ => rfl
    rw [encode_text (Nat.le_of_lt ht) hv, List.append_assoc]
    simp only [decodeText, Bytes.toWord_ofWord_append, hword, hdrop]
    rw [if_neg (by simp [lengthBytes]; omega), if_neg (by simp [capacity, lengthBytes]; omega)]
    simp [List.append_assoc, Utf8.decode_encode]

/-- A column takes every value that it reads. -/
theorem fits_of_decode {type : ColumnType} {bytes : Bytes} {v : Value}
    (h : type.decode bytes = .ok v) : Fits type v := by
  unfold decode at h
  split at h
  · simp at h
  · cases type with
    | int =>
      obtain rfl : Value.int (Bytes.toWord bytes).toInt32 = v := by simpa using h
      trivial
    | text w =>
      simp only at h
      split at h
      · simp at h
      · simp only [decodeText] at h
        split at h
        · simp at h
        · next hle =>
          cases hd : Utf8.decode ((bytes.drop lengthBytes).take (Bytes.toWord bytes).toNat) with
          | error f => simp [hd] at h
          | ok s =>
            obtain rfl : Value.text s = v := by simpa [hd] using h
            have := congrArg List.length (Utf8.eq_encode_of_decode hd)
            simp only [List.length_take] at this
            simp only [Fits]
            omega

end ColumnType

end RowStore
