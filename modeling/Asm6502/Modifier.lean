import Asm6502.Text.Numeral

/-! Arguments and their modifiers.

An argument is a number or a label. A modifier changes the address that a label stands for: it
takes one of its bytes or computes with it. Arithmetic is on 64-bit signed numbers. Sum, product
and quotient are undefined where the exact result does not fit, a shift is defined for the counts
below 64, and a left shift keeps the low 64 bits. -/
namespace Asm6502

/-- What an instruction is applied to. -/
inductive Argument where
  | none
  | literal (value : Int)
  | label (name : String)
deriving DecidableEq, Repr

namespace Argument

/-- The label whose address stands for the instruction's own address. -/
def selfReference : String := "*"

def label? : Argument → Option String
  | label name => some name
  | _ => Option.none

def literal? : Argument → Option Int
  | literal value => some value
  | _ => Option.none

def render : Argument → String
  | none => ""
  | literal value => toString value
  | label name => name

instance : Coe Int Argument := ⟨literal⟩
instance : Coe String Argument := ⟨label⟩
instance (n : Nat) : OfNat Argument n := ⟨literal n⟩

end Argument

/-! ### Arithmetic -/

namespace Signed64

def least : Int := -0x8000000000000000

def greatest : Int := 0x7fffffffffffffff

/-- A number, if it fits in 64 bits with sign. -/
def check (n : Int) : Option Int :=
  if least ≤ n ∧ n ≤ greatest then some n else none

/-- The number whose low 64 bits are those of `n`. -/
def wrap (n : Int) : Int := n.bmod 0x10000000000000000

/-- The number of a shift, if it is below the width. -/
def shiftCount? (n : Int) : Option Nat :=
  if 0 ≤ n ∧ n < 64 then some n.toNat else none

def bitAnd (a b : Int) : Int := (BitVec.ofInt 64 a &&& BitVec.ofInt 64 b).toInt

def bitOr (a b : Int) : Int := (BitVec.ofInt 64 a ||| BitVec.ofInt 64 b).toInt

end Signed64

inductive ArithmeticOp where
  | add
  | div
  | mul
  | shl
  | shr
  | and
  | or
deriving DecidableEq, Repr

namespace ArithmeticOp

/-- The sign that stands between label and number. -/
def symbol : ArithmeticOp → String
  | add => "+"
  | div => "/"
  | mul => "*"
  | shl => "<<"
  | shr => ">>"
  | and => "&"
  | or => "|"

/-- The name used in messages. -/
def name : ArithmeticOp → String
  | add => "Add"
  | div => "Div"
  | mul => "Mul"
  | shl => "Shl"
  | shr => "Shr"
  | and => "And"
  | or => "Or"

def all : List ArithmeticOp := [add, div, mul, shl, shr, and, or]

/-- The result, or nothing where it is undefined. A quotient is rounded toward zero. -/
def apply (op : ArithmeticOp) (a b : Int) : Option Int :=
  match op with
  | add => Signed64.check (a + b)
  | mul => Signed64.check (a * b)
  | div => if b = 0 then none else Signed64.check (a.tdiv b)
  | shl => (Signed64.shiftCount? b).map fun n => Signed64.wrap (a * Int.pow 2 n)
  | shr => (Signed64.shiftCount? b).map fun n => a / Int.pow 2 n
  | and => some (Signed64.bitAnd a b)
  | or => some (Signed64.bitOr a b)

end ArithmeticOp

/-! ### Modifiers -/

/-- What is done to the address of a label. -/
inductive Modifier where
  | lowByte
  | highByte
  | arithmetic (op : ArithmeticOp) (rhs : Int)
deriving DecidableEq, Repr

namespace Modifier

/-- The address so many bytes further on. -/
def offset (n : Int) : Modifier := arithmetic .add n

/-- Does the modifier take a single byte of the address? -/
def takesByte : Modifier → Bool
  | lowByte | highByte => true
  | arithmetic _ _ => false

def apply (modifier : Modifier) (address : Int) : Option Int :=
  match modifier with
  | lowByte => some (address % 256)
  | highByte => some (address / 256 % 256)
  | arithmetic op rhs => op.apply address rhs

/-- The label as written with its modifier. -/
def render (modifier : Modifier) (label : String) : String :=
  match modifier with
  | lowByte => "<" ++ label
  | highByte => ">" ++ label
  | arithmetic .add rhs => label ++ Text.signed rhs
  | arithmetic op rhs => label ++ op.symbol ++ toString rhs

/-- The modifier as named in messages. -/
def name : Modifier → String
  | lowByte => "LowByte"
  | highByte => "HighByte"
  | arithmetic op rhs => "Arithmetic(" ++ op.name ++ ", " ++ toString rhs ++ ")"

end Modifier

end Asm6502
