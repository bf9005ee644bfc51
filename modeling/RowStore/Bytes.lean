/-!
# Byte strings

Bytes as lists, with the few cuts that stored images need: a run of zeros, a fixed length, and a
window that lies inside. Words of 32 bits are stored with the most significant byte first.
-/

namespace RowStore

abbrev Bytes := List UInt8

namespace Bytes

def zeros (n : Nat) : Bytes := List.replicate n 0

/-- Cut or zero-fill at the end to exactly `n` bytes. -/
def fit (n : Nat) (bytes : Bytes) : Bytes := bytes.take n ++ zeros (n - bytes.length)

/-- The `count` bytes from `start` on, if there are that many. -/
def window? (bytes : Bytes) (start count : Nat) : Option Bytes :=
  let found := (bytes.drop start).take count
  if found.length = count then some found else none

/-- Write `data` at `start`; a gap before it is filled with zeros. Writing nothing changes
nothing. -/
def overwrite (bytes : Bytes) (start : Nat) (data : Bytes) : Bytes :=
  if data = [] then bytes
  else fit start bytes ++ data ++ bytes.drop (start + data.length)

def ofWord (w : UInt32) : Bytes :=
  [(w.toNat / 0x1000000).toUInt8, (w.toNat / 0x10000).toUInt8, (w.toNat / 0x100).toUInt8,
    w.toNat.toUInt8]

/-- The word in the first four bytes; fewer than four hold none and give zero. -/
def toWord : Bytes → UInt32
  | a :: b :: c :: d :: _ =>
    (a.toNat * 0x1000000 + b.toNat * 0x10000 + c.toNat * 0x100 + d.toNat).toUInt32
  | _ => 0

@[simp] theorem length_zeros (n : Nat) : (zeros n).length = n := by simp [zeros]

theorem getD_zeros (n k : Nat) : (zeros n).getD k 0 = 0 := by
  rw [List.getD_eq_getElem?_getD, zeros, List.getElem?_replicate]
  split <;> rfl

@[simp] theorem length_fit (n : Nat) (bytes : Bytes) : (fit n bytes).length = n := by
  simp [fit]; omega

theorem fit_of_length_eq {n : Nat} {bytes : Bytes} (h : bytes.length = n) :
    fit n bytes = bytes := by
  simp [fit, zeros, ← h]

@[simp] theorem length_ofWord (w : UInt32) : (ofWord w).length = 4 := rfl

theorem toWord_ofWord_append (w : UInt32) (rest : Bytes) : toWord (ofWord w ++ rest) = w := by
  have hw := w.toNat_lt
  apply UInt32.toNat.inj
  simp [toWord, ofWord]
  omega

theorem ofWord_toWord {bytes : Bytes} (h : 4 ≤ bytes.length) :
    ofWord (toWord bytes) = bytes.take 4 := by
  match bytes, h with
  | a :: b :: c :: d :: _, _ =>
    have ha := a.toNat_lt
    have hb := b.toNat_lt
    have hc := c.toNat_lt
    have hd := d.toNat_lt
    simp only [ofWord, toWord, List.take_succ_cons, List.take_zero, List.cons.injEq, and_true,
      ← UInt8.toNat_inj]
    simp
    omega

end Bytes

end RowStore
