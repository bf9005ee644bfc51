import RowStore.Text.Utf8

/-!
# UTF-8: reading undoes writing

`decode_eq_ok_iff` says that reading accepts exactly what writing produces.
-/

namespace RowStore.Utf8

theorem sequenceLength_eq_one {a : UInt8} : sequenceLength a = 1 ↔ a.toNat < 0x80 := by
  unfold sequenceLength; grind

theorem sequenceLength_eq_two {a : UInt8} :
    sequenceLength a = 2 ↔ 0xC2 ≤ a.toNat ∧ a.toNat < 0xE0 := by
  unfold sequenceLength; grind

theorem sequenceLength_eq_three {a : UInt8} :
    sequenceLength a = 3 ↔ 0xE0 ≤ a.toNat ∧ a.toNat < 0xF0 := by
  unfold sequenceLength; grind

theorem sequenceLength_eq_four {a : UInt8} :
    sequenceLength a = 4 ↔ 0xF0 ≤ a.toNat ∧ a.toNat < 0xF5 := by
  unfold sequenceLength; grind

theorem sequenceLength_le (a : UInt8) : sequenceLength a ≤ 4 := by
  unfold sequenceLength; grind

private theorem ofNat_of_eq {c : Char} {n : Nat} (h : n = c.val.toNat) : Char.ofNat n = c := by
  subst h
  exact Char.ofNat_toNat c

private theorem toNat_ofNat {n : Nat} (h : n < 0xD800 ∨ 0xDFFF < n ∧ n < 0x110000) :
    (Char.ofNat n).val.toNat = n := by
  have : n.isValidChar := h
  unfold Char.ofNat
  rw [dif_pos this]
  rfl

private theorem byte_of_eq {n : Nat} {b : UInt8} (h : n = b.toNat) : UInt8.ofNat n = b := by
  simp [h]

/-- Reading the bytes of a character yields the character. -/
theorem decodeFrom_encodeChar (start : Nat) (done : List Char) (c : Char) (rest : Bytes) :
    decodeFrom start done (String.utf8EncodeChar c ++ rest) =
      decodeFrom (start + (String.utf8EncodeChar c).length) (c :: done) rest := by
  have hv := c.valid
  simp only [UInt32.isValidChar, Nat.isValidChar] at hv
  generalize hn : c.val.toNat = n at hv
  unfold String.utf8EncodeChar
  simp only [hn]
  split
  · have hl : (UInt8.ofNat n).toNat = n := by simp; omega
    have hs : sequenceLength (UInt8.ofNat n) = 1 := sequenceLength_eq_one.2 (by omega)
    have hc : Char.ofNat n = c := ofNat_of_eq hn.symm
    simp [decodeFrom, hs, hl, hc]
  split
  · have ha : (UInt8.ofNat (n / 64 % 32 + 192)).toNat = n / 64 % 32 + 192 := by simp; omega
    have hb : (UInt8.ofNat (n % 64 + 128)).toNat = n % 64 + 128 := by simp; omega
    generalize UInt8.ofNat (n / 64 % 32 + 192) = a at ha
    generalize UInt8.ofNat (n % 64 + 128) = b at hb
    have hs : sequenceLength a = 2 := sequenceLength_eq_two.2 (by omega)
    have hf : MayFollow a b := by simp only [MayFollow, IsTail, ha, hb]; omega
    have hc : two a b = c := ofNat_of_eq (by rw [ha, hb, hn]; omega)
    simp [decodeFrom, hs, hf, hc]
  split
  · have ha : (UInt8.ofNat (n / 4096 % 16 + 224)).toNat = n / 4096 % 16 + 224 := by simp; omega
    have hb : (UInt8.ofNat (n / 64 % 64 + 128)).toNat = n / 64 % 64 + 128 := by simp; omega
    have hd : (UInt8.ofNat (n % 64 + 128)).toNat = n % 64 + 128 := by simp; omega
    generalize UInt8.ofNat (n / 4096 % 16 + 224) = a at ha
    generalize UInt8.ofNat (n / 64 % 64 + 128) = b at hb
    generalize UInt8.ofNat (n % 64 + 128) = d at hd
    have hs : sequenceLength a = 3 := sequenceLength_eq_three.2 (by omega)
    have hf : MayFollow a b := by simp only [MayFollow, IsTail, ha, hb]; omega
    have ht : IsTail d := by simp only [IsTail, hd]; omega
    have hc : three a b d = c := ofNat_of_eq (by rw [ha, hb, hd, hn]; omega)
    simp [decodeFrom, hs, hf, ht, hc]
  · have ha : (UInt8.ofNat (n / 262144 % 8 + 240)).toNat = n / 262144 % 8 + 240 := by
      simp; omega
    have hb : (UInt8.ofNat (n / 4096 % 64 + 128)).toNat = n / 4096 % 64 + 128 := by simp; omega
    have hd : (UInt8.ofNat (n / 64 % 64 + 128)).toNat = n / 64 % 64 + 128 := by simp; omega
    have he : (UInt8.ofNat (n % 64 + 128)).toNat = n % 64 + 128 := by simp; omega
    generalize UInt8.ofNat (n / 262144 % 8 + 240) = a at ha
    generalize UInt8.ofNat (n / 4096 % 64 + 128) = b at hb
    generalize UInt8.ofNat (n / 64 % 64 + 128) = d at hd
    generalize UInt8.ofNat (n % 64 + 128) = e at he
    have hs : sequenceLength a = 4 := sequenceLength_eq_four.2 (by omega)
    have hf : MayFollow a b := by simp only [MayFollow, IsTail, ha, hb]; omega
    have ht : IsTail d := by simp only [IsTail, hd]; omega
    have hu : IsTail e := by simp only [IsTail, he]; omega
    have hc : four a b d e = c := ofNat_of_eq (by rw [ha, hb, hd, he, hn]; omega)
    simp [decodeFrom, hs, hf, ht, hu, hc]

theorem decodeFrom_encode (start : Nat) (done cs : List Char) :
    decodeFrom start done (cs.flatMap String.utf8EncodeChar) = .ok (done.reverse ++ cs) := by
  induction cs generalizing start done with
  | nil => simp [decodeFrom]
  | cons c cs ih => simp [decodeFrom_encodeChar, ih]

theorem encodeChar_one {a : UInt8} (ha : sequenceLength a = 1) :
    String.utf8EncodeChar (Char.ofNat a.toNat) = [a] := by
  rw [sequenceLength_eq_one] at ha
  have : (Char.ofNat a.toNat).val.toNat = a.toNat := toNat_ofNat (by omega)
  unfold String.utf8EncodeChar
  simp only [this]
  rw [if_pos (by omega), byte_of_eq rfl]

theorem encodeChar_two {a b : UInt8} (ha : sequenceLength a = 2) (hb : IsTail b) :
    String.utf8EncodeChar (two a b) = [a, b] := by
  rw [sequenceLength_eq_two] at ha
  obtain ⟨hb, hb'⟩ := hb
  have : (two a b).val.toNat = a.toNat % 32 * 64 + b.toNat % 64 := toNat_ofNat (by omega)
  unfold String.utf8EncodeChar
  simp only [this]
  rw [if_neg (by omega), if_pos (by omega)]
  rw [byte_of_eq (b := a) (by omega), byte_of_eq (b := b) (by omega)]

theorem encodeChar_three {a b c : UInt8} (ha : sequenceLength a = 3) (hb : MayFollow a b)
    (hc : IsTail c) : String.utf8EncodeChar (three a b c) = [a, b, c] := by
  rw [sequenceLength_eq_three] at ha
  obtain ⟨hc, hc'⟩ := hc
  obtain ⟨⟨hb, hb'⟩, h⟩ := hb
  have : (three a b c).val.toNat =
      (a.toNat % 16 * 64 + b.toNat % 64) * 64 + c.toNat % 64 := toNat_ofNat (by omega)
  unfold String.utf8EncodeChar
  simp only [this]
  rw [if_neg (by omega), if_neg (by omega), if_pos (by omega)]
  rw [byte_of_eq (b := a) (by omega), byte_of_eq (b := b) (by omega),
    byte_of_eq (b := c) (by omega)]

theorem encodeChar_four {a b c d : UInt8} (ha : sequenceLength a = 4) (hb : MayFollow a b)
    (hc : IsTail c) (hd : IsTail d) : String.utf8EncodeChar (four a b c d) = [a, b, c, d] := by
  rw [sequenceLength_eq_four] at ha
  obtain ⟨hc, hc'⟩ := hc
  obtain ⟨hd, hd'⟩ := hd
  obtain ⟨⟨hb, hb'⟩, h⟩ := hb
  have : (four a b c d).val.toNat =
      ((a.toNat % 8 * 64 + b.toNat % 64) * 64 + c.toNat % 64) * 64 + d.toNat % 64 :=
    toNat_ofNat (by omega)
  unfold String.utf8EncodeChar
  simp only [this]
  rw [if_neg (by omega), if_neg (by omega), if_neg (by omega)]
  rw [byte_of_eq (b := a) (by omega), byte_of_eq (b := b) (by omega),
    byte_of_eq (b := c) (by omega), byte_of_eq (b := d) (by omega)]

/-- What is read in a byte string writes that byte string. -/
theorem eq_encode_of_decodeFrom {start : Nat} {done cs : List Char} {bytes : Bytes}
    (h : decodeFrom start done bytes = .ok cs) :
    ∃ read, cs = done.reverse ++ read ∧ bytes = read.flatMap String.utf8EncodeChar := by
  fun_induction decodeFrom start done bytes with
  | case1 start done =>
    obtain rfl : done.reverse = cs := by simpa using h
    exact ⟨[], by simp, rfl⟩
  | case3 start done a rest ha ih =>
    obtain ⟨read, rfl, rfl⟩ := ih h
    exact ⟨Char.ofNat a.toNat :: read, by simp, by simp [encodeChar_one ha]⟩
  | case6 start done a b rest hb _ _ ha ih =>
    obtain ⟨read, rfl, rfl⟩ := ih h
    exact ⟨two a b :: read, by simp, by simp [encodeChar_two ha (Decidable.not_not.1 hb).1]⟩
  | case9 start done a b hb c rest hc _ _ _ ha ih =>
    obtain ⟨read, rfl, rfl⟩ := ih h
    exact ⟨three a b c :: read, by simp,
      by simp [encodeChar_three ha (Decidable.not_not.1 hb) (Decidable.not_not.1 hc)]⟩
  | case12 start done a b hb c hc d rest hd h0 h1 h2 h3 ih =>
    obtain ⟨read, rfl, rfl⟩ := ih h
    have ha : sequenceLength a = 4 := by
      have := sequenceLength_le a
      have : sequenceLength a ≠ 0 := h0
      have : sequenceLength a ≠ 1 := h1
      omega
    exact ⟨four a b c d :: read, by simp,
      by simp [encodeChar_four ha (Decidable.not_not.1 hb) (Decidable.not_not.1 hc)
        (Decidable.not_not.1 hd)]⟩
  | _ => simp at h

theorem decode_encode (s : String) : decode (encode s) = .ok s := by
  simp [decode, encode, decodeFrom_encode, Except.map]

theorem eq_encode_of_decode {bytes : Bytes} {s : String} (h : decode bytes = .ok s) :
    bytes = encode s := by
  unfold decode at h
  cases hd : decodeFrom 0 [] bytes with
  | error e => simp [hd, Except.map] at h
  | ok cs =>
    obtain ⟨_, rfl, rfl⟩ := eq_encode_of_decodeFrom hd
    obtain rfl : String.ofList _ = s := by simpa [hd, Except.map] using h
    simp [encode]

theorem decode_eq_ok_iff {bytes : Bytes} {s : String} :
    decode bytes = .ok s ↔ bytes = encode s :=
  ⟨eq_encode_of_decode, fun h => h ▸ decode_encode s⟩

end RowStore.Utf8
