/-!
# Texts and numbers in JSON

Most tokens of a JSON text have one spelling. A quoted text and a number have many, and `Lexis`
names how they are read: it is given the characters that stand between the quotes, or the whole word
of a number. Reading undoes writing for every choice that reads back what is written of single texts
and numbers. `Lexis.standard` is the choice that runs. It stands in for a general library, and it
refuses what no JSON text may contain.
-/

namespace RowStore.Json

/-- How texts and numbers are read. What is read is refused, or it is a text that may stand for no
string, or a number that may be no natural one. -/
structure Lexis where
  text : List Char → Option (Option String)
  number : List Char → Option (Option Nat)

/-! ## Texts -/

/-- A character of a quoted text, or a 16-bit unit that an escape names. -/
inductive Piece where
  | char (c : Char)
  | unit (n : Nat)
  deriving DecidableEq, Repr

/-- The characters that the pieces spell, if every surrogate has its partner behind or before it. -/
def spell : List Piece → Option (List Char)
  | [] => some []
  | .char c :: rest => (spell rest).map (c :: ·)
  | .unit high :: .unit low :: rest =>
    if 0xD800 ≤ high ∧ high < 0xDC00 then
      if 0xDC00 ≤ low ∧ low < 0xE000 then
        (spell rest).map
          (Char.ofNat (0x10000 + (high - 0xD800) * 0x400 + (low - 0xDC00)) :: ·)
      else none
    else if 0xDC00 ≤ high ∧ high < 0xE000 then none
    else (spell (.unit low :: rest)).map (Char.ofNat high :: ·)
  | .unit n :: rest =>
    if 0xD800 ≤ n ∧ n < 0xE000 then none else (spell rest).map (Char.ofNat n :: ·)

/-- The character that a one-letter escape stands for. -/
def escaped? : Char → Option Char
  | '"' => some '"'
  | '\\' => some '\\'
  | '/' => some '/'
  | 'b' => some (Char.ofNat 8)
  | 'f' => some (Char.ofNat 12)
  | 'n' => some '\n'
  | 'r' => some '\r'
  | 't' => some '\t'
  | _ => none

def hexValue? (c : Char) : Option Nat :=
  if '0' ≤ c ∧ c ≤ '9' then some (c.toNat - '0'.toNat)
  else if 'a' ≤ c ∧ c ≤ 'f' then some (c.toNat - 'a'.toNat + 10)
  else if 'A' ≤ c ∧ c ≤ 'F' then some (c.toNat - 'A'.toNat + 10)
  else none

/-- A text that is being read: outside of escapes, or in one of the two parts of an escape. The last
piece stands first. -/
inductive Quote where
  | plain (read : List Piece)
  | escape (read : List Piece)
  | unit (read : List Piece) (count value : Nat)
  deriving DecidableEq, Repr

namespace Quote

def step (q : Quote) (c : Char) : Option Quote :=
  match q with
  | .plain read =>
    if c = '\\' then some (.escape read)
    else if c.toNat < 0x20 then none
    else some (.plain (.char c :: read))
  | .escape read =>
    if c = 'u' then some (.unit read 0 0)
    else do
      let e ← escaped? c
      return .plain (.char e :: read)
  | .unit read count value => do
    let d ← hexValue? c
    let value := value * 16 + d
    return if count = 3 then .plain (.unit value :: read) else .unit read (count + 1) value

def finish : Quote → Option (Option String)
  | .plain read => some ((spell read.reverse).map String.ofList)
  | _ => none

end Quote

def text? (cs : List Char) : Option (Option String) :=
  (cs.foldlM Quote.step (.plain [])).bind Quote.finish

/-! ## Numbers -/

def digitsThenRest (cs : List Char) : List Char × List Char :=
  (cs.takeWhile Char.isDigit, cs.dropWhile Char.isDigit)

/-- What is left of a number behind its digits: a fraction, then an exponent, each optional. -/
def exponentValid : List Char → Bool
  | [] => true
  | e :: rest =>
    (e = 'e' || e = 'E') &&
      (let digits := match rest with
        | '+' :: ds => ds
        | '-' :: ds => ds
        | ds => ds
      !digits.isEmpty && digits.all Char.isDigit)

def fractionValid : List Char → Bool
  | '.' :: rest =>
    let (digits, behind) := digitsThenRest rest
    !digits.isEmpty && exponentValid behind
  | rest => exponentValid rest

/-- Digits without a needless leading zero. -/
def integerValid (digits : List Char) : Bool :=
  match digits with
  | [] => false
  | ['0'] => true
  | '0' :: _ => false
  | _ => true

def valueOfDigits (digits : List Char) : Nat :=
  digits.foldl (fun n c => n * 10 + (c.toNat - '0'.toNat)) 0

def number? (word : List Char) : Option (Option Nat) :=
  let (negative, unsigned) := match word with
    | '-' :: rest => (true, rest)
    | rest => (false, rest)
  let (digits, behind) := digitsThenRest unsigned
  if integerValid digits && fractionValid behind then
    if !negative && behind.isEmpty then some (some (valueOfDigits digits)) else some none
  else none

def Lexis.standard : Lexis := ⟨text?, number?⟩

end RowStore.Json
