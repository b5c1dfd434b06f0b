import Lockstep.Text.Blank

/-! Numerals: natural numbers in digits, and the numbers of 64 bits among them.

Reading is by Horner's rule over the digits' values, with no limit on how many there are;
a number is compared with the limit once it is known, so leading zeros do no harm. -/
namespace Lockstep.Numeral

/-- The number that a list of digits stands for. -/
def value (base : Nat) (digits : List Nat) : Nat := digits.foldl (fun n d => n * base + d) 0

def hexDigit? (c : Char) : Option Nat :=
  if '0' ≤ c && c ≤ '9' then some (c.toNat - '0'.toNat)
  else if 'a' ≤ c && c ≤ 'f' then some (c.toNat - 'a'.toNat + 10)
  else if 'A' ≤ c && c ≤ 'F' then some (c.toNat - 'A'.toNat + 10)
  else none

/-- The value of a decimal digit, ASCII only. -/
def decimalDigit? (c : Char) : Option Nat :=
  if '0' ≤ c && c ≤ '9' then some (c.toNat - '0'.toNat) else none

/-- The number written in one digit or more. -/
def read? (base : Nat) (digit? : Char → Option Nat) (text : Text) : Option Nat :=
  if text.isEmpty then none else (text.mapM digit?).map (value base)

/-- The number as a word of 64 bits, if it is below 2^64. -/
def word? (n : Nat) : Option UInt64 := if n < UInt64.size then some (UInt64.ofNat n) else none

def hexWord? (text : Text) : Option UInt64 := (read? 16 hexDigit? text).bind word?

/-- A word of 64 bits in decimal digits, with or without one plus sign before them. -/
def decimalWord? : Text → Option UInt64
  | '+' :: digits => (read? 10 decimalDigit? digits).bind word?
  | digits => (read? 10 decimalDigit? digits).bind word?

/-- The number in decimal digits, without leading zeros. -/
def decimal (n : Nat) : Text := Nat.toDigits 10 n

/-- The number in lower-case hexadecimal digits, without leading zeros. -/
def hex (n : Nat) : Text := Nat.toDigits 16 n

end Lockstep.Numeral
