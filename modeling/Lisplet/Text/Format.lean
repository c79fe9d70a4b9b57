import Lisplet.Text.Character

namespace Lisplet.Text

def replacement : Char := '\uFFFD'

/-- A byte that belongs to no well-formed sequence is read as the replacement character. -/
def decodeFrom (bytes : ByteArray) (i : Nat) : List Char :=
  if i < bytes.size then
    match bytes.utf8DecodeChar? i with
    | some c => c :: decodeFrom bytes (i + c.utf8Size)
    | none => replacement :: decodeFrom bytes (i + 1)
  else []
termination_by bytes.size - i
decreasing_by
  · have := c.utf8Size_pos
    omega
  · omega

def decode (bytes : ByteArray) : String :=
  String.ofList (decodeFrom bytes 0)

def digits (n : Nat) : List Char := Nat.toDigits 10 n

def natural (n : Nat) : String := String.ofList (digits n)

def signed (n : Int64) : List Char :=
  if n.toInt < 0 then '-' :: digits n.toInt.natAbs else digits n.toInt.natAbs

def numeral (n : Int64) : String := String.ofList (signed n)

def valueOf (ds : List Char) : Nat := Nat.ofDigitChars 10 ds 0

def largest : Nat := 9223372036854775807

def read? (ds : List Char) : Option Int64 :=
  if ds.all Char.isDigit ∧ valueOf ds ≤ largest then some (Int64.ofNat (valueOf ds)) else none

theorem valueOf_digits (n : Nat) : valueOf (digits n) = n :=
  Nat.ofDigitChars_toDigits (by decide) (by decide)

theorem isDigit_of_mem_digits {n : Nat} {c : Char} (h : c ∈ digits n) : c.isDigit :=
  Nat.isDigit_of_mem_toDigits (by decide) (by decide) h

theorem read?_digits {n : Nat} (h : n ≤ largest) : read? (digits n) = some (Int64.ofNat n) := by
  have : (digits n).all Char.isDigit := by simp; exact fun c => isDigit_of_mem_digits
  rw [read?, valueOf_digits, if_pos ⟨this, h⟩]

def hex : Nat → Nat → List Char
  | 0, _ => []
  | width + 1, n => hex width (n / 16) ++ [Nat.digitChar (n % 16)]

def controlLetter? : Char → Option Char
  | '\x07' => some 'a'
  | '\x08' => some 'b'
  | '\x0c' => some 'f'
  | '\n' => some 'n'
  | '\r' => some 'r'
  | '\t' => some 't'
  | '\x0b' => some 'v'
  | _ => none

/-- A character that is not printable: by its letter, or by its code in the fewest of two, four
or eight digits, two being for ASCII only. -/
def escapeCode (c : Char) : List Char :=
  match controlLetter? c with
  | some l => ['\\', l]
  | none =>
    if c.toNat < 0x80 then '\\' :: 'x' :: hex 2 c.toNat
    else if c.toNat < 0x10000 then '\\' :: 'u' :: hex 4 c.toNat
    else '\\' :: 'U' :: hex 8 c.toNat

def escape (c : Char) : List Char :=
  if c = '"' ∨ c = '\\' then ['\\', c]
  else if isPrintable c then [c]
  else escapeCode c

def quote (cs : List Char) : List Char :=
  '"' :: cs.flatMap escape ++ ['"']

def quoted (s : String) : String :=
  String.ofList (quote s.toList)

end Lisplet.Text
