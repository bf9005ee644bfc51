import Mathlib.Data.List.Chain
import RowStore.Proofs.Json.Tree

/-!
# Writing JSON

How a text or a number is spelled is left to whoever writes it: a text can be quoted in many ways.
`Spelling` names that choice, as `Lexis` names what is made of the spelling. Reading undoes writing
for every two of them by which texts and numbers are read back when they stand alone, for what
stands beside them does not matter: each token leaves the reader between two tokens, or inside a
word that the mark behind it ends.
-/

namespace RowStore.Json

/-- How texts and numbers are spelled. -/
structure Spelling where
  text : String → List Char
  natural : Nat → List Char

namespace Spelling

/-- The characters of a token. A text that stands for no string has none. -/
def token (w : Spelling) : Token → List Char
  | .openList => ['[']
  | .closeList => [']']
  | .openRecord => ['{']
  | .closeRecord => ['}']
  | .comma => [',']
  | .colon => [':']
  | .null => "null".toList
  | .bool true => "true".toList
  | .bool false => "false".toList
  | .natural n => w.natural n
  | .number spelling => spelling.toList
  | .text (some s) => w.text s
  | .text none => []

/-- A value as it is written, its tokens one behind the other. -/
def write (w : Spelling) (j : Json) : String := String.ofList (j.toTokens.flatMap w.token)

end Spelling

/-- Each text, and each number of 64 bits, is read back where nothing else is written. -/
structure Lexis.ReadsBack (x : Lexis) (w : Spelling) : Prop where
  text : ∀ s, x.parse? (String.ofList (w.text s)) = some (.text (some s))
  natural : ∀ n, n < 0x10000000000000000 →
    x.parse? (String.ofList (w.natural n)) = some (.natural n)

variable {x : Lexis}

theorem tokens?_ofList (x : Lexis) (cs : List Char) : tokens? x (String.ofList cs) =
    (cs.foldlM (Scan.step x) ⟨.between, []⟩).bind (Scan.finish x) := by
  rw [tokens?, String.toList_ofList]

/-! ## Side by side -/

namespace Token

/-- The tokens that end where the next character can no longer belong to them. -/
def IsWord : Token → Prop
  | .null | .bool _ | .natural _ | .number _ => True
  | _ => False

/-- The tokens of one character. -/
def IsMark : Token → Prop
  | .openList | .closeList | .openRecord | .closeRecord | .comma | .colon => True
  | _ => False

/-- Two tokens that may touch: where a word ends, a mark stands. -/
def MayTouch (t u : Token) : Prop := t.IsWord → u.IsMark

end Token

theorem isWord_of_wordToken {word : List Char} {t : Token} (h : wordToken x word = some t) :
    t.IsWord := by
  unfold wordToken at h
  split at h
  · cases h; trivial
  split at h
  · cases h; trivial
  split at h
  · cases h; trivial
  · obtain ⟨n, -, rfl⟩ := Option.map_eq_some_iff.1 h
    cases n <;> trivial

namespace Scan

/-- The same state with tokens that were read before. -/
def behind (s : Scan) (earlier : List Token) : Scan := { s with done := s.done ++ earlier }

variable {s : Scan} {c : Char}

theorem outside_behind (done earlier : List Token) (c : Char) :
    outside (done ++ earlier) c = (outside done c).behind earlier := by
  unfold outside
  split
  · rfl
  split
  · rfl
  split <;> rfl

/-- Reading a character does not depend on what was read before. -/
theorem step_behind (x : Lexis) (s : Scan) (earlier : List Token) (c : Char) :
    (s.behind earlier).step x c = (s.step x c).map (behind · earlier) := by
  obtain ⟨mode, done⟩ := s
  cases mode with
  | between => exact congrArg some (outside_behind done earlier c)
  | word read =>
    simp only [behind, step]
    split
    · cases hword : wordToken x read.reverse with
      | none => rfl
      | some t => exact congrArg some (outside_behind (t :: done) earlier c)
    · rfl
  | text read =>
    simp only [behind, step]
    split
    · cases x.text read.reverse <;> rfl
    split <;> rfl
  | escape read => rfl

theorem foldlM_behind (s : Scan) (earlier : List Token) (cs : List Char) :
    cs.foldlM (step x) (s.behind earlier) = (cs.foldlM (step x) s).map (behind · earlier) := by
  induction cs generalizing s with
  | nil => rfl
  | cons c cs ih =>
    rw [List.foldlM_cons, List.foldlM_cons, step_behind]
    cases s.step x c with
    | none => rfl
    | some t => exact ih t

theorem finish_behind (s : Scan) (earlier : List Token) :
    (s.behind earlier).finish x = (s.finish x).map (earlier.reverse ++ ·) := by
  obtain ⟨mode, done⟩ := s
  cases mode with
  | between => simp [behind, finish]
  | word read =>
    simp only [behind, finish]
    cases wordToken x read.reverse <;> simp
  | text read => rfl
  | escape read => rfl

/-- Where one token may end the next one begins. -/
theorem step_of_finish {ts : List Token} (h : s.finish x = some ts)
    (hc : s.mode = .between ∨ endsWord c = true) : s.step x c = some (outside ts.reverse c) := by
  obtain ⟨mode, done⟩ := s
  cases mode with
  | between =>
    obtain rfl := Option.some.inj h
    rw [List.reverse_reverse]
    rfl
  | word read =>
    have hends : endsWord c = true := hc.resolve_left nofun
    obtain ⟨t, ht, rfl⟩ := Option.map_eq_some_iff.1 h
    simp [step, hends, ht]
  | text read => cases h
  | escape read => cases h

/-- Behind a complete token the reader is between two tokens, or at the end of a word. -/
theorem between_or_isWord {t : Token} (h : s.finish x = some [t]) :
    s.mode = .between ∨ t.IsWord := by
  obtain ⟨mode, done⟩ := s
  cases mode with
  | between => exact .inl rfl
  | word read =>
    obtain ⟨u, hu, heq⟩ := Option.map_eq_some_iff.1 h
    obtain rfl : u = t := by
      rw [List.reverse_eq_iff] at heq
      exact List.head_eq_of_cons_eq heq
    exact .inr (isWord_of_wordToken hu)
  | text read => cases h
  | escape read => cases h

/-- A token that is read alone is also read behind others. -/
theorem foldlM_token {ts : List Token} {t : Token} {cs : List Char} (h : s.finish x = some ts)
    (hread : tokens? x (String.ofList cs) = some [t])
    (hc : s.mode = .between ∨ ∃ c rest, cs = c :: rest ∧ endsWord c = true) :
    ∃ u, cs.foldlM (step x) s = some u ∧ u.finish x = some (ts ++ [t]) ∧
      (u.mode = .between ∨ t.IsWord) := by
  rw [tokens?_ofList] at hread
  obtain ⟨u, hu, hfinish⟩ := Option.bind_eq_some_iff.1 hread
  cases cs with
  | nil =>
    cases hu
    cases hfinish
  | cons c cs =>
    have hstep : s.step x c = some ((outside [] c).behind ts.reverse) := by
      rw [← outside_behind, List.nil_append]
      refine step_of_finish h (hc.imp_right ?_)
      rintro ⟨_, _, heq, hends⟩
      cases heq
      exact hends
    have hrest : cs.foldlM (step x) (outside [] c) = some u := hu
    refine ⟨u.behind ts.reverse, ?_, ?_, between_or_isWord (s := u) hfinish⟩
    · rw [List.foldlM_cons, hstep]
      show cs.foldlM (step x) ((outside [] c).behind ts.reverse) = _
      rw [foldlM_behind, hrest]
      rfl
    · rw [finish_behind, hfinish, List.reverse_reverse]
      rfl

end Scan

theorem endsWord_token {t : Token} (w : Spelling) (h : t.IsMark) :
    ∃ c rest, w.token t = c :: rest ∧ Scan.endsWord c = true := by
  cases t with
  | openList | closeList | openRecord | closeRecord | comma | colon => exact ⟨_, [], rfl, rfl⟩
  | null | bool | natural | number | text => cases h

/-- Tokens that are read alone are read side by side, if each word is followed by a mark. -/
theorem tokens?_flatMap {w : Spelling} {ts : List Token}
    (hread : ∀ t ∈ ts, tokens? x (String.ofList (w.token t)) = some [t])
    (htouch : ts.IsChain Token.MayTouch) :
    tokens? x (String.ofList (ts.flatMap w.token)) = some ts := by
  suffices hscan : ∀ (s : Scan) (earlier : List Token), s.finish x = some earlier →
      (∀ t ∈ ts.head?, s.mode = .between ∨ t.IsMark) →
      ∃ u, (ts.flatMap w.token).foldlM (Scan.step x) s = some u ∧
        u.finish x = some (earlier ++ ts) by
    obtain ⟨u, hu, hfinish⟩ := hscan ⟨.between, []⟩ [] rfl fun _ _ => .inl rfl
    rw [tokens?_ofList, hu]
    exact hfinish
  induction ts with
  | nil =>
    intro s earlier hs _
    exact ⟨s, rfl, by rwa [List.append_nil]⟩
  | cons t ts ih =>
    intro s earlier hs hfirst
    obtain ⟨ht, hts⟩ := List.forall_mem_cons.1 hread
    obtain ⟨hnext, hrest⟩ := List.isChain_cons.1 htouch
    obtain ⟨u, hu, hfinish, hmode⟩ := Scan.foldlM_token hs ht
      ((hfirst t rfl).imp_right (endsWord_token w))
    obtain ⟨v, hv, hdone⟩ := ih hts hrest u _ hfinish fun k hk => hmode.imp_right (hnext k hk)
    refine ⟨v, ?_, by rwa [List.append_assoc] at hdone⟩
    rw [List.flatMap_cons, List.foldlM_append, hu]
    exact hv

/-! ## Values -/

section

variable {t : Token} {ts us : List Token}

theorem isChain_cons_of_not_isWord (ht : ¬ t.IsWord) (hts : ts.IsChain Token.MayTouch) :
    (t :: ts).IsChain Token.MayTouch :=
  List.isChain_cons.2 ⟨fun _ _ hword => absurd hword ht, hts⟩

theorem isChain_append_of_isMark (hts : ts.IsChain Token.MayTouch)
    (hus : us.IsChain Token.MayTouch) (hmark : ∀ t ∈ us.head?, t.IsMark) :
    (ts ++ us).IsChain Token.MayTouch :=
  List.isChain_append.2 ⟨hts, hus, fun _ _ _ ht _ => hmark _ ht⟩

end

theorem isMark_behindItem (items : List Json) : ∀ t ∈ (behindItem items).head?, t.IsMark := by
  rintro t ht
  cases items <;> cases ht <;> trivial

theorem isMark_behindMember (members : List (Option String × Json)) :
    ∀ t ∈ (behindMember members).head?, t.IsMark := by
  rintro t ht
  cases members <;> cases ht <;> trivial

mutual

/-- In a value each word is followed by a mark. -/
theorem isChain_toTokens : ∀ j : Json, j.toTokens.IsChain Token.MayTouch
  | .null => .singleton _
  | .bool _ => .singleton _
  | .natural _ => .singleton _
  | .number _ => .singleton _
  | .text _ => .singleton _
  | .list [] => isChain_cons_of_not_isWord id (.singleton _)
  | .list (j :: items) =>
    isChain_cons_of_not_isWord id <|
      isChain_append_of_isMark (isChain_toTokens j) (isChain_behindItem items)
        (isMark_behindItem items)
  | .record [] => isChain_cons_of_not_isWord id (.singleton _)
  | .record ((_, j) :: members) =>
    isChain_cons_of_not_isWord id <| isChain_cons_of_not_isWord id <|
      isChain_cons_of_not_isWord id <|
        isChain_append_of_isMark (isChain_toTokens j) (isChain_behindMember members)
          (isMark_behindMember members)

theorem isChain_behindItem : ∀ items : List Json, (behindItem items).IsChain Token.MayTouch
  | [] => .singleton _
  | j :: items =>
    isChain_cons_of_not_isWord id <|
      isChain_append_of_isMark (isChain_toTokens j) (isChain_behindItem items)
        (isMark_behindItem items)

theorem isChain_behindMember : ∀ members : List (Option String × Json),
    (behindMember members).IsChain Token.MayTouch
  | [] => .singleton _
  | (_, j) :: members =>
    isChain_cons_of_not_isWord id <| isChain_cons_of_not_isWord id <|
      isChain_cons_of_not_isWord id <|
        isChain_append_of_isMark (isChain_toTokens j) (isChain_behindMember members)
          (isMark_behindMember members)

end

/-- Such a token has a spelling that stands for it alone: its number goes into 64 bits, and its text
is a string. -/
def Token.Plain : Token → Prop
  | .natural n => n < 0x10000000000000000
  | .number _ | .text none => False
  | _ => True

/-- The values that are written in plain tokens. -/
def Plain (j : Json) : Prop := ∀ t ∈ j.toTokens, t.Plain

theorem plain_behindItem {items : List Json} (h : ∀ j ∈ items, j.Plain) :
    ∀ t ∈ behindItem items, t.Plain := by
  induction items with
  | nil => simp [behindItem, Token.Plain]
  | cons j items ih =>
    obtain ⟨hj, hitems⟩ := List.forall_mem_cons.1 h
    exact List.forall_mem_cons.2 ⟨trivial, List.forall_mem_append.2 ⟨hj, ih hitems⟩⟩

theorem plain_list {items : List Json} (h : ∀ j ∈ items, j.Plain) : (Json.list items).Plain := by
  cases items with
  | nil => simp [Plain, toTokens, Token.Plain]
  | cons j items =>
    obtain ⟨hj, hitems⟩ := List.forall_mem_cons.1 h
    refine List.forall_mem_cons.2 ⟨trivial, ?_⟩
    exact List.forall_mem_append.2 ⟨hj, plain_behindItem hitems⟩

/-- The name of such a member is a string, and its value is plain. -/
def PlainMember (m : Option String × Json) : Prop := (Token.text m.1).Plain ∧ m.2.Plain

theorem plain_behindMember {members : List (Option String × Json)}
    (h : ∀ m ∈ members, PlainMember m) : ∀ t ∈ behindMember members, t.Plain := by
  induction members with
  | nil => simp [behindMember, Token.Plain]
  | cons m members ih =>
    obtain ⟨⟨hname, hj⟩, hmembers⟩ := List.forall_mem_cons.1 h
    refine List.forall_mem_cons.2 ⟨trivial, List.forall_mem_cons.2 ⟨hname, ?_⟩⟩
    exact List.forall_mem_cons.2 ⟨trivial, List.forall_mem_append.2 ⟨hj, ih hmembers⟩⟩

theorem plain_record {members : List (Option String × Json)}
    (h : ∀ m ∈ members, PlainMember m) : (Json.record members).Plain := by
  cases members with
  | nil => simp [Plain, toTokens, Token.Plain]
  | cons m members =>
    obtain ⟨⟨hname, hj⟩, hmembers⟩ := List.forall_mem_cons.1 h
    refine List.forall_mem_cons.2 ⟨trivial, List.forall_mem_cons.2 ⟨hname, ?_⟩⟩
    refine List.forall_mem_cons.2 ⟨trivial, ?_⟩
    exact List.forall_mem_append.2 ⟨hj, plain_behindMember hmembers⟩

namespace Lexis

theorem ReadsBack.token {w : Spelling} (h : x.ReadsBack w) {t : Token} (ht : t.Plain) :
    tokens? x (String.ofList (w.token t)) = some [t] := by
  have halone : ∀ (cs : List Char) (j : Json), x.parse? (String.ofList cs) = some j →
      tokens? x (String.ofList cs) = some j.toTokens := by
    intro cs j hparse
    obtain ⟨ts, hts, hj⟩ := Option.bind_eq_some_iff.1 hparse
    rw [hts, ofTokens?_eq_some_iff.1 hj]
  cases t with
  | natural n => exact halone _ _ (h.natural n ht)
  | number => cases ht
  | text s =>
    cases s with
    | none => cases ht
    | some s => exact halone _ _ (h.text s)
  | bool b => cases b <;> exact tokens?_ofList x _
  | null | openList | closeList | openRecord | closeRecord | comma | colon =>
    exact tokens?_ofList x _

/-- Reading a value undoes writing it. -/
theorem parse?_write {w : Spelling} (h : x.ReadsBack w) {j : Json} (hj : j.Plain) :
    x.parse? (w.write j) = some j := by
  have htokens := tokens?_flatMap (fun t ht => h.token (hj t ht)) (isChain_toTokens j)
  rw [parse?, Spelling.write, htokens]
  exact ofTokens?_eq_some_iff.2 rfl

end Lexis

end RowStore.Json
