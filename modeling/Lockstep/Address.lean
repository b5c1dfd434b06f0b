import Lockstep.Text.Numeral

/-! Addresses of instructions and ticks of the simulated clock: words of 64 bits, each
with the form it is read in and the form it is written in. -/
namespace Lockstep

/-- Where an instruction lies. -/
abbrev Address := UInt64

/-- A time on the simulated clock. -/
abbrev Tick := UInt64

namespace Address

/-- The digits without the mark of hexadecimal notation, taken away at most once. -/
def withoutMark : Text → Text
  | '0' :: 'x' :: digits => digits
  | '0' :: 'X' :: digits => digits
  | digits => digits

/-- The address that a token names: hexadecimal digits with or without a mark, blanks
around them ignored. -/
def read? (token : Text) : Option Address := Numeral.hexWord? (withoutMark (Text.trim token))

/-- The address in bare hexadecimal digits. -/
def hex (address : Address) : Text := Numeral.hex address.toNat

def marked (address : Address) : Text := "0x".toList ++ address.hex

end Address

namespace Tick

/-- The tick that a token of decimal digits names. -/
def read? (token : Text) : Option Tick := Numeral.decimalWord? token

def decimal (tick : Tick) : Text := Numeral.decimal tick.toNat

end Tick

end Lockstep
