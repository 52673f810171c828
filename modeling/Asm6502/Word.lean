import Asm6502.Text.Numeral

/-! Sixteen-bit words: addresses and operands of the machine.

A word is stored low byte first. An address is written in hexadecimal behind a dollar sign or
behind a zero and a small x, and in decimal otherwise. -/
namespace Asm6502

/-- The first address past the memory of the machine. -/
def memorySize : Nat := 0x10000

namespace Word

/-- The word of this value, if there is one. -/
def ofInt? (n : Int) : Option UInt16 :=
  if 0 ≤ n ∧ n ≤ 0xffff then some (UInt16.ofNat n.toNat) else none

/-- The two bytes of a word, low byte first. -/
def littleEndian (n : Nat) : List UInt8 :=
  [UInt8.ofNat n, UInt8.ofNat (n / 256)]

/-- Reads an address such as `$c000`, `0xc000` or `49152`. -/
def read (s : String) : Except Text.NumeralError UInt16 :=
  UInt16.ofNat <$>
    match s.toList with
    | '0' :: 'x' :: digits => Text.readNumeral 16 0xffff digits
    | '$' :: digits => Text.readNumeral 16 0xffff digits
    | digits => Text.readNumeral 10 0xffff digits

end Word

end Asm6502
