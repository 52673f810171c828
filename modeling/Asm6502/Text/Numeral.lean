/-! Numerals: how listings and messages write numbers, and how an address is read from text.

Writing is hexadecimal padded to a least number of digits, in either letter case, or decimal with
the sign always shown. Reading goes through the digits from left to right and stops at the first
character that is no digit of the radix, or at the first digit that takes the value past the
limit, whichever comes first. -/
namespace Asm6502.Text

/-- At least `width` hexadecimal digits, letters in lower case. -/
def hex (width n : Nat) : String :=
  String.ofList ((Nat.toDigits 16 n).leftpad width '0')

/-- At least `width` hexadecimal digits, letters in upper case. -/
def hexUpper (width n : Nat) : String :=
  String.ofList (((Nat.toDigits 16 n).leftpad width '0').map Char.toUpper)

/-- A decimal number behind its sign, a plus sign included. -/
def signed (n : Int) : String :=
  if n < 0 then toString n else "+" ++ toString n

/-- Text filled up with blanks on the right to at least `width` characters. -/
def column (width : Nat) (s : String) : String :=
  String.ofList (s.toList.rightpad width ' ')

/-! ### Reading -/

/-- Why a text is no numeral. -/
inductive NumeralError where
  | empty
  | invalidDigit
  | overflow
deriving DecidableEq, Repr

def NumeralError.message : NumeralError → String
  | .empty => "cannot parse integer from empty string"
  | .invalidDigit => "invalid digit found in string"
  | .overflow => "number too large to fit in target type"

/-- The value of a decimal digit, or of a letter counted on from ten. -/
def digitValue (c : Char) : Option Nat :=
  if '0' ≤ c ∧ c ≤ '9' then some (c.toNat - '0'.toNat)
  else if 'a' ≤ c ∧ c ≤ 'z' then some (c.toNat - 'a'.toNat + 10)
  else if 'A' ≤ c ∧ c ≤ 'Z' then some (c.toNat - 'A'.toNat + 10)
  else none

/-- The value of a digit of the given radix. -/
def digitIn (radix : Nat) (c : Char) : Option Nat :=
  (digitValue c).filter (· < radix)

/-- Reads on from the value `acc` of the digits before. -/
def readDigits (radix limit : Nat) (acc : Nat) : List Char → Except NumeralError Nat
  | [] => .ok acc
  | c :: rest =>
    match digitIn radix c with
    | none => .error .invalidDigit
    | some d =>
      if acc * radix + d ≤ limit then readDigits radix limit (acc * radix + d) rest
      else .error .overflow

/-- Reads an unsigned numeral of at most `limit`. One plus sign may stand in front of the digits. -/
def readNumeral (radix limit : Nat) : List Char → Except NumeralError Nat
  | [] => .error .empty
  | ['+'] => .error .invalidDigit
  | '+' :: digits => readDigits radix limit 0 digits
  | digits => readDigits radix limit 0 digits

end Asm6502.Text
