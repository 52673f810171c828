import Asm6502.Text.Numeral
import Asm6502.Text.Unprintable

/-! Quoted text in messages. Some control characters have a letter of their own, the quote around
the text and the backslash are written behind a backslash, and what cannot be printed is written
by its code point. -/
namespace Asm6502.Text

/-- A character inside text that stands between two quotes. -/
def escape (quote c : Char) : List Char :=
  match c with
  | '\x00' => ['\\', '0']
  | '\t' => ['\\', 't']
  | '\r' => ['\\', 'r']
  | '\n' => ['\\', 'n']
  | '\\' => ['\\', '\\']
  | _ =>
    if c = quote then ['\\', c]
    else if isUnprintable c then "\\u\x7b".toList ++ Nat.toDigits 16 c.toNat ++ ['\x7d']
    else [c]

/-- A character between single quotes. -/
def quoteChar (c : Char) : String :=
  String.ofList ('\'' :: escape '\'' c ++ ['\''])

/-- A text between double quotes. -/
def quote (s : String) : String :=
  String.ofList ('"' :: s.toList.flatMap (escape '"') ++ ['"'])

end Asm6502.Text
