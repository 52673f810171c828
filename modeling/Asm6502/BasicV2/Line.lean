import Asm6502.BasicV2.Keyword
import Asm6502.Charset
import Asm6502.Text.Blank
import Asm6502.Text.Quoted
import Asm6502.Word

/-! Lines of a BASIC V2 program: a number, and statements with their keywords as tokens.

Keywords are not looked for in strings, in remarks and in the items of `DATA`. Everything else is
PETSCII, in upper case. -/
namespace Asm6502.BasicV2

/-- Why a listing cannot be tokenized. -/
inductive BasicError where
  | invalidOrigin (origin : Int)
  | missingLineNumber (line : Nat)
  | lineNumberOutOfRange (digits : String)
  | unknownCharacter (c : Char)
  | programOverflow
deriving DecidableEq, Repr

def BasicError.message : BasicError → String
  | invalidOrigin origin => "Origin has to be in range $0 - $ffff, got " ++ toString origin
  | missingLineNumber line => "Line " ++ toString line ++ " has to start with a line number"
  | lineNumberOutOfRange digits => "Line number " ++ digits ++ " out of range"
  | unknownCharacter c => "Unknown character " ++ Text.quoteChar c
  | programOverflow => "Program does not fit in memory"

/-! ### Statements -/

/-- What the characters of a line mean at some place. -/
inductive Reading where
  | keywords
  /-- Inside a string, which may be an item of `DATA`. -/
  | quoted (inData : Bool)
  /-- After `DATA`, up to a colon outside of strings. -/
  | data
  /-- After `REM`, up to the end of the line. -/
  | remark
deriving DecidableEq, Repr

/-- The reading after a keyword. -/
def Keyword.reading (k : Keyword) : Reading :=
  if k.spelling = "REM" then .remark else if k.spelling = "DATA" then .data else .keywords

/-- The reading after a character that stands for itself. -/
def Reading.after : Reading → Char → Reading
  | keywords, c => if c = '"' then quoted false else keywords
  | quoted inData, c => if c = '"' then if inData then data else keywords else quoted inData
  | data, c => if c = '"' then quoted true else if c = ':' then keywords else data
  | remark, _ => remark

/-- The keyword at the start of a text, where keywords are looked for. -/
def Reading.keyword? (reading : Reading) (cs : List Char) : Option Keyword :=
  match reading with
  | keywords => Keyword.at? cs
  | _ => none

def petscii (c : Char) : Except BasicError UInt8 :=
  match Charset.petscii.encodeChar c with
  | some code => .ok code
  | none => .error (.unknownCharacter c)

/-- Tokens and characters of statements in upper case. -/
def tokens (reading : Reading) (cs : List Char) : Except BasicError (List UInt8) :=
  match cs with
  | [] => .ok []
  | c :: rest =>
    match reading.keyword? (c :: rest) with
    | some k => do
      let after ← tokens k.reading (rest.drop (k.spelling.toList.length - 1))
      return k.token :: after
    | none => do
      let code ← petscii c
      let after ← tokens (reading.after c) rest
      return code :: after
termination_by cs.length
decreasing_by
  all_goals simp only [List.length_cons, List.length_drop]; omega

/-- Tokens and characters of the statements of a line. -/
def tokenizeBody (body : List Char) : Except BasicError (List UInt8) :=
  tokens .keywords (Text.upper body)

/-! ### Lines -/

structure Line where
  number : Nat
  body : List UInt8
deriving DecidableEq, Repr

/-- The highest line number. -/
def maxLineNumber : Nat := 63999

/-- The value of decimal digits. -/
def decimal (digits : List Char) : Nat :=
  digits.foldl (fun n c => n * 10 + (c.toNat - '0'.toNat)) 0

namespace Line

/-- Splits the text of a line into its number and its body. -/
def split (index : Nat) (text : List Char) : Except BasicError (Nat × List Char) :=
  let digits := text.takeWhile Char.isDigit
  if digits.isEmpty then .error (.missingLineNumber (index + 1))
  else if decimal digits ≤ maxLineNumber then
    .ok (decimal digits, Text.trimLeft (text.dropWhile Char.isDigit))
  else .error (.lineNumberOutOfRange (String.ofList digits))

/-- Reads the line at a position of the listing, counted from zero, without blanks around it. -/
def read (index : Nat) (text : List Char) : Except BasicError Line := do
  let (number, body) ← split index text
  let body ← tokenizeBody body
  return ⟨number, body⟩

/-- The number of bytes in memory: link, line number, body and a zero. -/
def size (line : Line) : Nat := 2 + 2 + line.body.length + 1

/-- The line in memory, linked to the next one. -/
def bytes (line : Line) (next : Nat) : List UInt8 :=
  Word.littleEndian next ++ Word.littleEndian line.number ++ line.body ++ [0]

end Line

end Asm6502.BasicV2
