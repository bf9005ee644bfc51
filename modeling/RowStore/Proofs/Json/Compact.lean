import Mathlib.Data.List.TakeWhile
import RowStore.Proofs.Json.Writing

/-!
# A compact spelling

Numbers in decimal, and texts as they are, but for the characters that may not stand in a quoted
text: a quote, a backslash and the control characters are escaped, by one letter where there is one
and else by their number.
-/

namespace RowStore.Json

/-- The characters that are escaped by a letter, each with its letter. -/
def letters : List (Char × Char) :=
  [('"', '"'), ('\\', '\\'), (Char.ofNat 8, 'b'), (Char.ofNat 12, 'f'), ('\n', 'n'), ('\r', 'r'),
    ('\t', 't')]

def letterOf? (c : Char) : Option Char := (letters.find? fun l => l.1 = c).map Prod.snd

def escape (c : Char) : List Char :=
  match letterOf? c with
  | some letter => ['\\', letter]
  | none =>
    if c.toNat < 0x20 then
      ['\\', 'u', '0', '0', Nat.digitChar (c.toNat / 16), Nat.digitChar (c.toNat % 16)]
    else [c]

def Spelling.compact : Spelling where
  text s := '"' :: (s.toList.flatMap escape ++ ['"'])
  natural n := Nat.toDigits 10 n

/-! ## Texts -/

/-- What a character is read as. -/
def pieceOf (c : Char) : Piece :=
  if letterOf? c = none ∧ c.toNat < 0x20 then .unit c.toNat else .char c

theorem escaped?_letter {c letter : Char} (h : letterOf? c = some letter) :
    escaped? letter = some c := by
  have key : ∀ l ∈ letters, escaped? l.2 = some l.1 := by decide
  obtain ⟨l, hl, rfl⟩ := Option.map_eq_some_iff.1 h
  obtain rfl : l.1 = c := by simpa using List.find?_some hl
  exact key l (List.mem_of_find?_eq_some hl)

theorem hexValue?_digitChar {n : Nat} (h : n < 16) : hexValue? (Nat.digitChar n) = some n := by
  have key : ∀ n, n < 16 → hexValue? (Nat.digitChar n) = some n := by decide
  exact key n h

/-- A character is escaped by a letter or by its number, or it stands as it is. -/
theorem escape_cases (c : Char) :
    (∃ letter, escaped? letter = some c ∧ escape c = ['\\', letter] ∧ pieceOf c = .char c) ∨
    (∃ high low, high < 16 ∧ low < 16 ∧ high * 16 + low = c.toNat ∧
      escape c = ['\\', 'u', '0', '0', high.digitChar, low.digitChar] ∧
      pieceOf c = .unit c.toNat) ∨
    (c ≠ '"' ∧ c ≠ '\\' ∧ 0x20 ≤ c.toNat ∧ escape c = [c] ∧ pieceOf c = .char c) := by
  unfold escape pieceOf
  cases hletter : letterOf? c with
  | some letter => exact .inl ⟨letter, escaped?_letter hletter, rfl, rfl⟩
  | none =>
    by_cases hlow : c.toNat < 0x20
    · refine .inr (.inl ⟨c.toNat / 16, c.toNat % 16, by omega, by omega, by omega, ?_, ?_⟩)
      · exact if_pos hlow
      · exact if_pos ⟨rfl, hlow⟩
    · refine .inr (.inr ⟨?_, ?_, by omega, if_neg hlow, if_neg fun h => hlow h.2⟩)
      all_goals
        rintro rfl
        cases hletter

/-- One character is read as one piece. -/
theorem foldlM_escape (read : List Piece) (c : Char) :
    (escape c).foldlM Quote.step (.plain read) = some (.plain (pieceOf c :: read)) := by
  obtain ⟨letter, hescaped, hescape, hpiece⟩ |
    ⟨high, low, hhigh, hlow, hvalue, hescape, hpiece⟩ |
    ⟨-, hslash, hprinted, hescape, hpiece⟩ := escape_cases c
  · have hne : letter ≠ 'u' := by
      rintro rfl
      cases hescaped
    simp [hescape, hpiece, List.foldlM_cons, Quote.step, hne, hescaped]
  · have hzero : hexValue? '0' = some 0 := rfl
    simp [hescape, hpiece, List.foldlM_cons, Quote.step, hzero, hexValue?_digitChar hhigh,
      hexValue?_digitChar hlow, hvalue]
  · simp [hescape, hpiece, List.foldlM_cons, Quote.step, hslash, hprinted]

theorem foldlM_escapes (read : List Piece) (cs : List Char) :
    (cs.flatMap escape).foldlM Quote.step (.plain read) =
      some (.plain ((cs.map pieceOf).reverse ++ read)) := by
  induction cs generalizing read with
  | nil => rfl
  | cons c cs ih =>
    rw [List.flatMap_cons, List.foldlM_append, foldlM_escape]
    simpa using ih (pieceOf c :: read)

theorem spell_unit_cons {n : Nat} (h : n < 0xD800) (rest : List Piece) :
    spell (.unit n :: rest) = (spell rest).map (Char.ofNat n :: ·) := by
  have hhigh : ¬ (0xD800 ≤ n ∧ n < 0xDC00) := by omega
  have hlow : ¬ (0xDC00 ≤ n ∧ n < 0xE000) := by omega
  have hnone : ¬ (0xD800 ≤ n ∧ n < 0xE000) := by omega
  cases rest with
  | nil => simp [spell, hnone]
  | cons p rest =>
    cases p with
    | char c => simp [spell, hnone]
    | unit m => rw [spell, if_neg hhigh, if_neg hlow]

/-- The pieces spell the characters that they came from. -/
theorem spell_pieceOf (cs : List Char) : spell (cs.map pieceOf) = some cs := by
  induction cs with
  | nil => rfl
  | cons c cs ih =>
    rw [List.map_cons, pieceOf]
    split
    · next h =>
      rw [spell_unit_cons (by omega), ih, Char.ofNat_toNat]
      rfl
    · rw [spell, ih]
      rfl

theorem text?_escapes (cs : List Char) :
    text? (cs.flatMap escape) = some (some (String.ofList cs)) := by
  rw [text?, foldlM_escapes, List.append_nil]
  show some ((spell (cs.map pieceOf).reverse.reverse).map String.ofList) = _
  rw [List.reverse_reverse, spell_pieceOf]
  rfl

/-- No quote stands among the characters of an escape but behind a backslash, so they do not end the
text. -/
theorem foldlM_step_escape (x : Lexis) (read : List Char) (c : Char) :
    (escape c).foldlM (Scan.step x) ⟨.text read, []⟩ =
      some ⟨.text ((escape c).reverse ++ read), []⟩ := by
  have hdigit : ∀ n, n < 16 → n.digitChar ≠ '"' ∧ n.digitChar ≠ '\\' := by decide
  obtain ⟨letter, -, hescape, -⟩ | ⟨high, low, hhigh, hlow, -, hescape, -⟩ |
    ⟨hquote, hslash, -, hescape, -⟩ := escape_cases c
  · rw [hescape]
    rfl
  · simp [hescape, List.foldlM_cons, Scan.step, hdigit high hhigh, hdigit low hlow]
  · simp [hescape, List.foldlM_cons, Scan.step, hquote, hslash]

theorem foldlM_step_escapes (x : Lexis) (read cs : List Char) :
    (cs.flatMap escape).foldlM (Scan.step x) ⟨.text read, []⟩ =
      some ⟨.text ((cs.flatMap escape).reverse ++ read), []⟩ := by
  induction cs generalizing read with
  | nil => rfl
  | cons c cs ih =>
    rw [List.flatMap_cons, List.foldlM_append, foldlM_step_escape, List.reverse_append,
      List.append_assoc]
    exact ih ((escape c).reverse ++ read)

theorem parse?_compact_text (s : String) :
    parse? (String.ofList (Spelling.compact.text s)) = some (.text (some s)) := by
  have hscan : (Spelling.compact.text s).foldlM (Scan.step .standard) ⟨.between, []⟩ =
      some ⟨.between, [.text (some s)]⟩ := by
    show (s.toList.flatMap escape ++ ['"']).foldlM (Scan.step .standard) ⟨.text [], []⟩ = _
    have htext : Lexis.standard.text (s.toList.flatMap escape) = some (some s) := by
      show text? (s.toList.flatMap escape) = _
      rw [text?_escapes, String.ofList_toList]
    rw [List.foldlM_append, foldlM_step_escapes]
    simp [Scan.step, htext]
  rw [parse?, Lexis.parse?, tokens?_ofList, hscan]
  rfl

/-! ## Numbers -/

theorem endsWord_of_isDigit {c : Char} (h : c.isDigit = true) : Scan.endsWord c = false := by
  have key : ∀ n, n < 58 → 48 ≤ n → Scan.endsWord (Char.ofNat n) = false := by decide
  have hrange : 48 ≤ c.val ∧ c.val ≤ 57 := by simpa [Char.isDigit] using h
  rw [UInt32.le_iff_toNat_le, UInt32.le_iff_toNat_le] at hrange
  rw [← Char.ofNat_toNat c]
  exact key c.toNat (Nat.lt_succ_of_le hrange.2) hrange.1

theorem outside_of_endsWord {c : Char} (h : Scan.endsWord c = false) (done : List Token) :
    Scan.outside done c = ⟨.word [c], done⟩ := by
  simp only [Scan.endsWord, Bool.or_eq_false_iff, decide_eq_false_iff_not,
    Option.isSome_eq_false_iff, Option.isNone_iff_eq_none] at h
  simp [Scan.outside, h]

/-- A word goes on up to the character that ends it. -/
theorem foldlM_word (x : Lexis) (read cs : List Char) (h : ∀ c ∈ cs, Scan.endsWord c = false) :
    cs.foldlM (Scan.step x) ⟨.word read, []⟩ = some ⟨.word (cs.reverse ++ read), []⟩ := by
  induction cs generalizing read with
  | nil => rfl
  | cons c cs ih =>
    obtain ⟨hc, hcs⟩ := List.forall_mem_cons.1 h
    have hstep : Scan.step x ⟨.word read, []⟩ c = some ⟨.word (c :: read), []⟩ := by
      simp [Scan.step, hc]
    rw [List.foldlM_cons, hstep, List.reverse_cons, List.append_assoc]
    exact ih (c :: read) hcs

/-- The digits of a number begin with no zero, unless it is zero. -/
theorem toDigits_eq_cons_of_pos {n : Nat} (h : 0 < n) :
    ∃ c cs, Nat.toDigits 10 n = c :: cs ∧ c ≠ '0' := by
  induction n using Nat.strongRecOn with
  | _ n ih =>
    by_cases hn : n < 10
    · have key : ∀ n, n < 10 → 0 < n → n.digitChar ≠ '0' := by decide
      exact ⟨_, [], Nat.toDigits_of_lt_base hn, key n hn h⟩
    · obtain ⟨c, cs, hdigits, hc⟩ := ih (n / 10) (by omega) (by omega)
      exact ⟨c, _, by rw [Nat.toDigits_of_base_le (by omega) (by omega), hdigits]; rfl, hc⟩

theorem integerValid_toDigits (n : Nat) : integerValid (Nat.toDigits 10 n) = true := by
  rcases Nat.eq_zero_or_pos n with rfl | hn
  · rfl
  · obtain ⟨c, cs, hdigits, hc⟩ := toDigits_eq_cons_of_pos hn
    rw [hdigits]
    unfold integerValid
    split <;> simp_all

theorem isDigit_of_mem_digits {n : Nat} : ∀ c ∈ Nat.toDigits 10 n, c.isDigit = true :=
  fun _ hc => Nat.isDigit_of_mem_toDigits (by omega) (by omega) hc

theorem number?_toDigits (n : Nat) : number? (Nat.toDigits 10 n) = some (some n) := by
  have hdigits : digitsThenRest (Nat.toDigits 10 n) = (Nat.toDigits 10 n, []) := by
    rw [digitsThenRest, List.takeWhile_eq_self_iff.2 isDigit_of_mem_digits,
      List.dropWhile_eq_nil_iff.2 isDigit_of_mem_digits]
  have hvalue : valueOfDigits (Nat.toDigits 10 n) = n := by
    have hten := Nat.ofDigitChars_ten_toDigits (n := n)
    rw [Nat.ofDigitChars_eq_foldl] at hten
    simpa only [valueOfDigits, Nat.mul_comm 10] using hten
  unfold number?
  split
  next unsigned hsplit =>
  split at hsplit
  · next rest hminus =>
    have hdigit := isDigit_of_mem_digits '-' (hminus ▸ List.mem_cons_self)
    cases hdigit
  · cases hsplit
    simp [hdigits, hvalue, integerValid_toDigits, fractionValid, exponentValid]

theorem wordToken_toDigits (n : Nat) :
    wordToken .standard (Nat.toDigits 10 n) = some (.natural n) := by
  have hletters : ∀ word : List Char, word.all Char.isDigit = false → Nat.toDigits 10 n ≠ word := by
    rintro word hword rfl
    rw [List.all_eq_true.2 isDigit_of_mem_digits] at hword
    cases hword
  rw [wordToken, if_neg (hletters "null".toList rfl), if_neg (hletters "true".toList rfl),
    if_neg (hletters "false".toList rfl)]
  show (number? (Nat.toDigits 10 n)).map _ = _
  rw [number?_toDigits]
  rfl

theorem parse?_compact_natural (n : Nat) :
    parse? (String.ofList (Spelling.compact.natural n)) = some (.natural n) := by
  have hscan : (Nat.toDigits 10 n).foldlM (Scan.step .standard) ⟨.between, []⟩ =
      some ⟨.word (Nat.toDigits 10 n).reverse, []⟩ := by
    have hword : ∀ c ∈ Nat.toDigits 10 n, Scan.endsWord c = false :=
      fun c hc => endsWord_of_isDigit (isDigit_of_mem_digits c hc)
    obtain ⟨c, cs, hcs⟩ := List.exists_cons_of_ne_nil (Nat.toDigits_ne_nil (n := n) (b := 10))
    rw [hcs] at hword ⊢
    obtain ⟨hc, hrest⟩ := List.forall_mem_cons.1 hword
    rw [List.reverse_cons, ← foldlM_word .standard [c] cs hrest, ← outside_of_endsWord hc]
    rfl
  have hfinish : Scan.finish .standard ⟨.word (Nat.toDigits 10 n).reverse, []⟩ =
      some [.natural n] := by
    simp [Scan.finish, wordToken_toDigits]
  show parse? (String.ofList (Nat.toDigits 10 n)) = _
  rw [parse?, Lexis.parse?, tokens?_ofList, hscan, Option.bind_some, hfinish]
  rfl

theorem Lexis.readsBack_compact : Lexis.standard.ReadsBack .compact :=
  ⟨parse?_compact_text, fun n _ => parse?_compact_natural n⟩

end RowStore.Json
