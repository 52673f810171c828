/-! Addressing modes: how an instruction uses its operand.

A mode fixes the number of operand bytes, the values they can hold, and how the operand is
written in a listing. -/
namespace Asm6502

inductive Mode where
  | absolute
  | zeroPage
  | zeroPageX
  | zeroPageY
  | absoluteX
  | absoluteY
  | relative
  | indirect
  | indirectIndexedX
  | indirectIndexedY
  | immediate
  | accumulator
  | implied
deriving DecidableEq, Repr

namespace Mode

def all : List Mode :=
  [absolute, zeroPage, zeroPageX, zeroPageY, absoluteX, absoluteY, relative, indirect,
    indirectIndexedX, indirectIndexedY, immediate, accumulator, implied]

/-- The name used in messages. -/
def name : Mode → String
  | absolute => "Absolute"
  | zeroPage => "ZeroPage"
  | zeroPageX => "ZeroPageX"
  | zeroPageY => "ZeroPageY"
  | absoluteX => "AbsoluteX"
  | absoluteY => "AbsoluteY"
  | relative => "Relative"
  | indirect => "Indirect"
  | indirectIndexedX => "IndirectIndexedX"
  | indirectIndexedY => "IndirectIndexedY"
  | immediate => "Immediate"
  | accumulator => "Accumulator"
  | implied => "Implied"

/-- The number of operand bytes behind the opcode. -/
def operandSize : Mode → Nat
  | implied | accumulator => 0
  | immediate | zeroPage | zeroPageX | zeroPageY | indirectIndexedX | indirectIndexedY
  | relative => 1
  | absolute | absoluteX | absoluteY | indirect => 2

/-- What is written before and after the operand; nothing is written for a mode without one. -/
def frame : Mode → Option (String × String)
  | implied | accumulator => none
  | immediate => some (" #", "")
  | zeroPage | absolute | relative => some (" ", "")
  | zeroPageX | absoluteX => some (" ", ",x")
  | zeroPageY | absoluteY => some (" ", ",y")
  | indirectIndexedX => some (" (", ",x)")
  | indirectIndexedY => some (" (", "),y")
  | indirect => some (" (", ")")

/-- The operand part of an instruction, from the text of its argument. -/
def render (mode : Mode) (argument : String) : String :=
  match mode.frame with
  | some (before, after) => before ++ argument ++ after
  | none => ""

/-- The operand part with a pair of braces in the place of the argument. -/
def template (mode : Mode) : String :=
  mode.render "\x7b\x7d"

/-- The least and the greatest value of the operand. -/
def domain : Mode → Option (Int × Int)
  | implied | accumulator => none
  | relative => some (-128, 127)
  | absolute | absoluteX | absoluteY | indirect => some (0, 0xffff)
  | immediate | zeroPage | zeroPageX | zeroPageY | indirectIndexedX | indirectIndexedY =>
    some (0, 0xff)

/-- Modes whose operand may be a label without a modifier. -/
def admitsLabel : Mode → Bool
  | absolute | absoluteX | absoluteY | indirect | relative => true
  | _ => false

end Mode

end Asm6502
