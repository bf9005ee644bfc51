import RowStore.Bytes

/-!
# UTF-8

`encode` writes a text and `decode` reads it back. Bytes that are no UTF-8 are refused with their
first fault: either the bytes from some place on begin no sequence, and the fault counts how many
of them could have begun one, or the input ends inside a sequence.
-/

namespace RowStore.Utf8

inductive Fault where
  | invalid (start length : Nat)
  | incomplete (start : Nat)
  deriving DecidableEq, Repr

def Fault.message : Fault → String
  | .invalid start length =>
    "invalid utf-8 sequence of " ++ toString length ++ " bytes from index " ++ toString start
  | .incomplete start => "incomplete utf-8 byte sequence from index " ++ toString start

def encode (s : String) : Bytes := s.toList.flatMap String.utf8EncodeChar

/-- How many bytes a sequence has that begins with `a`, and zero where none does. -/
def sequenceLength (a : UInt8) : Nat :=
  if a.toNat < 0x80 then 1
  else if a.toNat < 0xC2 then 0
  else if a.toNat < 0xE0 then 2
  else if a.toNat < 0xF0 then 3
  else if a.toNat < 0xF5 then 4
  else 0

def IsTail (b : UInt8) : Prop := 0x80 ≤ b.toNat ∧ b.toNat < 0xC0

instance (b : UInt8) : Decidable (IsTail b) := inferInstanceAs (Decidable (_ ∧ _))

/-- What may stand second after `a`. The four special cases keep out overlong forms, the
surrogates, and what lies past the last code point. -/
def MayFollow (a b : UInt8) : Prop :=
  IsTail b ∧ (a.toNat = 0xE0 → 0xA0 ≤ b.toNat) ∧ (a.toNat = 0xED → b.toNat < 0xA0) ∧
    (a.toNat = 0xF0 → 0x90 ≤ b.toNat) ∧ (a.toNat = 0xF4 → b.toNat < 0x90)

instance (a b : UInt8) : Decidable (MayFollow a b) := inferInstanceAs (Decidable (_ ∧ _))

def two (a b : UInt8) : Char := Char.ofNat (a.toNat % 32 * 64 + b.toNat % 64)

def three (a b c : UInt8) : Char :=
  Char.ofNat ((a.toNat % 16 * 64 + b.toNat % 64) * 64 + c.toNat % 64)

def four (a b c d : UInt8) : Char :=
  Char.ofNat (((a.toNat % 8 * 64 + b.toNat % 64) * 64 + c.toNat % 64) * 64 + d.toNat % 64)

/-- Read on from offset `start`, with `done` the characters read so far, the last one first. -/
def decodeFrom (start : Nat) (done : List Char) : Bytes → Except Fault (List Char)
  | [] => .ok done.reverse
  | a :: rest =>
    match sequenceLength a with
    | 0 => .error (.invalid start 1)
    | 1 => decodeFrom (start + 1) (Char.ofNat a.toNat :: done) rest
    | n =>
      match rest with
      | [] => .error (.incomplete start)
      | b :: rest =>
        if ¬MayFollow a b then .error (.invalid start 1)
        else if n = 2 then decodeFrom (start + 2) (two a b :: done) rest
        else
          match rest with
          | [] => .error (.incomplete start)
          | c :: rest =>
            if ¬IsTail c then .error (.invalid start 2)
            else if n = 3 then decodeFrom (start + 3) (three a b c :: done) rest
            else
              match rest with
              | [] => .error (.incomplete start)
              | d :: rest =>
                if ¬IsTail d then .error (.invalid start 3)
                else decodeFrom (start + 4) (four a b c d :: done) rest

def decode (bytes : Bytes) : Except Fault String := (decodeFrom 0 [] bytes).map String.ofList

end RowStore.Utf8
