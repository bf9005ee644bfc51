import RowStore.Proofs.Page.Spelling

/-!
# Values behind one another

A value is written at the end of a buffer and takes the width of its column there. A column reads
back what it took, whatever follows, as long as the length of a text fits the word in front of it;
of a longer text it reads what the low 32 bits of the length leave. What a column reads, it also
takes, and writes again with zeros for padding. A text that is no UTF-8 or too long is not read.
-/

namespace RowStore

namespace Bytes

theorem fit_append (front : Bytes) (n : Nat) (bytes : Bytes) :
    fit (front.length + n) (front ++ bytes) = front ++ fit n bytes := by
  rw [fit, fit, List.take_length_add_append, List.length_append, Nat.add_sub_add_left,
    List.append_assoc]

end Bytes

namespace Utf8

/-- The texts of this library are the well-formed byte arrays. -/
theorem isValidUTF8_iff {bytes : Bytes} :
    bytes.toByteArray.IsValidUTF8 ↔ ∃ s, encode s = bytes := by
  constructor
  · rintro ⟨chars, hchars⟩
    have hbytes := congrArg (fun b => b.data.toList) hchars
    simp only [List.utf8Encode, List.toList_data_toByteArray] at hbytes
    exact ⟨String.ofList chars, by simp [encode, hbytes]⟩
  · rintro ⟨s, rfl⟩
    exact ⟨s.toList, rfl⟩

theorem length_encode_replicate (n : Nat) :
    (encode (String.ofList (List.replicate n 'a'))).length = n := by
  have hone : Char.utf8Size 'a' = 1 := rfl
  simp [encode, List.length_flatMap, hone]

end Utf8

namespace Value

/-- Write a value behind what a buffer holds: its payload first, then the buffer is brought to the
length that it has with the column. -/
def appendTo (type : ColumnType) (v : Value) (buffer : Bytes) : Bytes :=
  Bytes.fit (buffer.length + type.width) (buffer ++ v.payload type)

variable {t : ColumnType} {v : Value} {field : Bytes} {w : Nat} {s : String}

/-- What the buffer held is left alone. -/
theorem appendTo_eq (t : ColumnType) (v : Value) (buffer : Bytes) :
    v.appendTo t buffer = buffer ++ v.encode t := Bytes.fit_append buffer t.width (v.payload t)

theorem Spelled.countable (h : Spelled t field v) : v.Countable := by
  cases h with
  | int n => trivial
  | @text w length s padding hlength hw =>
    rw [Countable, ← hlength]
    exact length.toNat_lt

/-- The payload of a value that was read stands in front. -/
theorem Spelled.payload_eq (h : Spelled t field v) :
    v.payload t = field.take (v.payload t).length ∧ (v.payload t).length ≤ t.width := by
  cases h with
  | int n => exact ⟨rfl, Nat.le_refl _⟩
  | @text w length s padding hlength hw =>
    have hword : (Utf8.encode s).length.toUInt32 = length := by
      rw [← hlength]
      simp
    have hcap : (Utf8.encode s).length ≤ (ColumnType.text w).capacity := by
      simp only [ColumnType.capacity]
      omega
    have hpayload : (Value.text s).payload (.text w) = Bytes.ofWord length ++ Utf8.encode s := by
      simp only [payload, List.take_of_length_le hcap, hword]
    rw [hpayload, ← List.append_assoc, List.take_left]
    refine ⟨rfl, ?_⟩
    simp only [List.length_append, Bytes.length_ofWord, ColumnType.width]
    simp only [ColumnType.lengthBytes] at hw
    omega

/-- A value that was read is written as it stood, but with zeros behind its payload. -/
theorem Spelled.encode_eq (h : Spelled t field v) :
    v.encode t =
      field.take (v.payload t).length ++ Bytes.zeros (t.width - (v.payload t).length) := by
  obtain ⟨hfront, hle⟩ := h.payload_eq
  rw [encode, Bytes.fit_of_le hle, ← hfront]

/-- A text that is longer than its length word tells is cut where that word says, if a character
ends there. -/
theorem spelled_encode_cut {a : String} {more : Bytes} (hw : Schema.TypeValid (.text w))
    (hfits : Fits (.text w) (.text s)) (hcut : Utf8.encode s = Utf8.encode a ++ more)
    (hlength : (Utf8.encode a).length = (Utf8.encode s).length % 0x100000000) :
    Spelled (.text w) ((Value.text s).encode (.text w)) (.text a) := by
  have hw : 4 < w := hw
  have hcap : (Utf8.encode s).length ≤ w - 4 := hfits
  have hsum := congrArg List.length hcut
  rw [List.length_append] at hsum
  have hword : (Utf8.encode s).length.toUInt32.toNat = (Utf8.encode a).length := by
    rw [hlength]
    simp
  have hfield : (Value.text s).encode (.text w) =
      Bytes.ofWord (Utf8.encode s).length.toUInt32 ++
        (Utf8.encode a ++ (more ++ Bytes.zeros (w - 4 - (Utf8.encode s).length))) := by
    rw [encode_text (Nat.le_of_lt hw) hfits, ← List.append_assoc (Utf8.encode a), ← hcut]
  rw [hfield]
  refine .text hword ?_
  rw [hword, List.length_append, Bytes.length_zeros]
  simp only [ColumnType.lengthBytes]
  omega

end Value

namespace ColumnType

open Value

variable {t : ColumnType} {v : Value} {w : Nat} {bytes : Bytes}

/-- The length that the word in front of a text tells. -/
def announced (bytes : Bytes) : Nat := (Bytes.toWord bytes).toNat

/-- The bytes of a text, by the length in front of it. -/
def textBytes (bytes : Bytes) : Bytes := (bytes.drop lengthBytes).take (announced bytes)

theorem decodeText_eq_ok_iff :
    decodeText w bytes = .ok v ↔
      announced bytes ≤ w - lengthBytes ∧ ∃ s, v = .text s ∧ Utf8.encode s = textBytes bytes := by
  simp only [decodeText]
  split
  · next hlong => exact iff_of_false (by simp) fun h => absurd h.1 (Nat.not_le_of_lt hlong)
  · next hshort =>
    have hshort : announced bytes ≤ w - lengthBytes := Nat.le_of_not_lt hshort
    split
    · next a ha =>
      have ha : textBytes bytes = Utf8.encode a := Utf8.decode_eq_ok_iff.1 ha
      constructor
      · intro h
        obtain rfl := Except.ok.inj h
        exact ⟨hshort, a, rfl, ha.symm⟩
      · rintro ⟨-, s, rfl, hs⟩
        have hread := Utf8.decode_encode a
        rw [← ha, ← hs, Utf8.decode_encode] at hread
        obtain rfl := Except.ok.inj hread
        rfl
    · next fault hfault =>
      refine iff_of_false (by simp) ?_
      rintro ⟨-, s, -, hs⟩
      have hfault : Utf8.decode (textBytes bytes) = .error fault := hfault
      rw [← hs, Utf8.decode_encode] at hfault
      cases hfault

/-- A text is read if the column is all there and the text is not too long and well-formed. -/
theorem decode_text_eq_ok_iff :
    (ColumnType.text w).decode bytes = .ok v ↔
      w ≤ bytes.length ∧ lengthBytes ≤ w ∧ announced bytes ≤ w - lengthBytes ∧
        ∃ s, v = .text s ∧ Utf8.encode s = textBytes bytes := by
  unfold decode
  split
  · next hlen => exact iff_of_false nofun fun h => absurd h.1 (Nat.not_le_of_lt hlen)
  · next hlen =>
    have hlen : w ≤ bytes.length := Nat.le_of_not_lt hlen
    show (if w < lengthBytes then _ else decodeText w bytes) = .ok v ↔ _
    split
    · next hroom => exact iff_of_false nofun fun h => absurd h.2.1 (Nat.not_le_of_lt hroom)
    · next hroom =>
      rw [decodeText_eq_ok_iff]
      simp [hlen, Nat.le_of_not_lt hroom]

/-- Whatever keeps a value from being read is a fault of its bytes. -/
theorem decode_eq_error {e : StorageError} (h : t.decode bytes = .error e) :
    ∃ fault, e = .decode fault := by
  unfold decode at h
  split at h
  · cases h
    exact ⟨_, rfl⟩
  · cases t with
    | int => cases h
    | text w =>
      simp only [decodeText] at h
      split at h
      · cases h
        exact ⟨_, rfl⟩
      · split at h
        · cases h
          exact ⟨_, rfl⟩
        · split at h
          · cases h
          · cases h
            exact ⟨_, rfl⟩

/-- What a column writes and what it reads answer each other. -/
structure Codec (t : ColumnType) : Prop where
  writes : ∀ i v, v.check i t = .ok () → ∀ buffer, ∃ field : Bytes, field.length = t.width ∧
    v.appendTo t buffer = buffer ++ field ∧
    ∀ rest, t.decode (field ++ rest) = .ok v ↔ v.Countable
  reads : ∀ bytes v, t.decode bytes = .ok v → (∀ i, v.check i t = .ok ()) ∧ v.Countable ∧
    t.width ≤ bytes.length ∧ (v.payload t).length ≤ t.width ∧
    ∀ buffer, v.appendTo t buffer = buffer ++ (bytes.take (v.payload t).length ++
      Bytes.zeros (t.width - (v.payload t).length))
  refuses : ∀ bytes w, t = .text w →
    ¬ (textBytes bytes).toByteArray.IsValidUTF8 ∨ w - lengthBytes < announced bytes →
    ∃ fault, t.decode bytes = .error (.decode fault)

theorem codec_of_typeValid (ht : Schema.TypeValid t) : t.Codec where
  writes i v hv buffer := by
    refine ⟨v.encode t, v.length_encode t, appendTo_eq t v buffer, fun rest => ?_⟩
    constructor
    · exact fun h => (spelled_of_decode h).countable
    · exact fun hc => decode_encode_append ht (check_eq_ok_iff.1 hv) hc rest
  reads bytes v h := by
    have hspelled := spelled_of_decode h
    have hlen := hspelled.length_eq
    obtain ⟨-, hle⟩ := hspelled.payload_eq
    rw [List.length_take] at hlen
    refine ⟨fun i => check_eq_ok_iff.2 (fits_of_decode h), hspelled.countable, by omega, hle,
      fun buffer => ?_⟩
    rw [appendTo_eq, hspelled.encode_eq, List.take_take, Nat.min_eq_left hle]
  refuses bytes w hw hbad := by
    subst hw
    cases hread : (ColumnType.text w).decode bytes with
    | error e =>
      obtain ⟨fault, rfl⟩ := decode_eq_error hread
      exact ⟨fault, rfl⟩
    | ok v =>
      obtain ⟨-, -, hshort, s, -, hs⟩ := decode_text_eq_ok_iff.1 hread
      rcases hbad with hnot | hlong
      · exact absurd (Utf8.isValidUTF8_iff.2 ⟨s, hs⟩) hnot
      · omega

/-- Every column that a schema may have writes whatever value it takes in its width, behind what is
there, and reads it back from there if and only if it is no text of 2^32 bytes or more. It reads
only values that it takes, and writes them as they stood, with zeros for padding. -/
theorem codec_of_schema {columns : List Column} {schema : Schema}
    (hs : Schema.ofColumns columns = .ok schema) (ht : t ∈ schema.types) : t.Codec :=
  codec_of_typeValid ((Schema.ofColumns_eq_ok_iff.1 hs).1.typeValid t ht)

/-- Four bytes of text in a column for five, with a character of two bytes in the middle. What was
in the padding is not written again, and half of the character is not read. -/
theorem codec_of_schema_split_character :
    ∃ (schema : Schema) (stored torn : Bytes),
      Schema.ofColumns [⟨.int, none⟩, ⟨.text 9, some "n"⟩] = .ok schema ∧
      stored = [0, 0, 0, 4, 0x61, 0xC3, 0xB1, 0x62, 7] ∧
      torn = [0, 0, 0, 2, 0x61, 0xC3, 0xB1, 0x62, 7] ∧
      (ColumnType.text 9).decode stored = .ok (.text "añb") ∧
      (Value.text "añb").appendTo (.text 9) [1, 2] =
        [1, 2, 0, 0, 0, 4, 0x61, 0xC3, 0xB1, 0x62, 0] ∧
      (∀ rest, (ColumnType.text 9).decode ([0, 0, 0, 4, 0x61, 0xC3, 0xB1, 0x62, 0] ++ rest) =
        .ok (.text "añb")) ∧
      ∃ fault, (ColumnType.text 9).decode torn = .error (.decode fault) := by
  obtain ⟨schema, hschema⟩ : ∃ schema, Schema.ofColumns [⟨.int, none⟩, ⟨.text 9, some "n"⟩] =
    .ok schema := ⟨_, rfl⟩
  have hmem : ColumnType.text 9 ∈ schema.types := by
    cases hschema
    decide
  have hcodec := codec_of_schema hschema hmem
  have hread : (ColumnType.text 9).decode [0, 0, 0, 4, 0x61, 0xC3, 0xB1, 0x62, 7] =
    .ok (.text "añb") := rfl
  obtain ⟨hcheck, hcountable, -, -, hwritten⟩ := hcodec.reads _ _ hread
  obtain ⟨field, -, happend, hback⟩ := hcodec.writes 1 _ (hcheck 1) [1, 2]
  obtain rfl := List.append_cancel_left (happend.symm.trans (hwritten [1, 2]))
  exact ⟨schema, _, _, hschema, rfl, rfl, hread, happend, fun rest => (hback rest).2 hcountable,
    hcodec.refuses _ 9 rfl (.inl (by decide))⟩

/-- A column of 2^32 + 4 bytes takes a text of 2^32 letters, but the word in front of it becomes
zero, and the text is read back as the empty one. -/
theorem long_text_reads_empty :
    ∃ (w : Nat) (s : String), w = 4294967300 ∧
      s = String.ofList (List.replicate 4294967296 'a') ∧
      Schema.ofColumns [⟨.text w, none⟩] = .ok ⟨[⟨.text w, none⟩]⟩ ∧
      (Value.text s).check 0 (.text w) = .ok () ∧
      (ColumnType.text w).decode ((Value.text s).appendTo (.text w) []) = .ok (.text "") ∧
      Value.text s ≠ .text "" := by
  -- the number of letters must not be unfolded
  obtain ⟨n, hn⟩ : ∃ n, n = 4294967296 := ⟨_, rfl⟩
  have hlength := Utf8.length_encode_replicate n
  generalize hs : String.ofList (List.replicate n 'a') = s at hlength
  have hwide : Schema.TypeValid (.text (n + 4)) := by
    show 4 < n + 4
    omega
  have hfits : Fits (.text (n + 4)) (.text s) := by
    simp only [Fits, capacity, lengthBytes]
    omega
  have hschema : Schema.ofColumns [⟨.text (n + 4), none⟩] = .ok ⟨[⟨.text (n + 4), none⟩]⟩ :=
    Schema.ofColumns_eq_ok_iff.2 ⟨⟨by simp, by simpa [Schema.types] using hwide⟩, rfl⟩
  have hzero : (Utf8.encode "").length = (Utf8.encode s).length % 0x100000000 := by
    rw [hlength, hn]
    rfl
  have hread := decode_of_spelled (spelled_encode_cut hwide hfits rfl hzero) []
  refine ⟨n + 4, s, by omega, by rw [← hs, hn], hschema, check_eq_ok_iff.2 hfits, ?_, ?_⟩
  · rwa [appendTo_eq, List.nil_append, ← List.append_nil (encode _ _)]
  · rintro ⟨⟩
    rw [hn] at hlength
    cases hlength

end ColumnType

end RowStore
