import Asm6502.Proofs.LineChain

/-! What a listing says, line by line.

Of a line only its wording matters: the digits in front and the rest in upper case (`Line.read_eq`). Of
a listing only the lines that are not blank matter, with the positions they have (`chain_eq`). -/
namespace Asm6502.BasicV2

/-- What a line says: the digits in front of it, and its statements in upper case. -/
structure Wording where
  digits : List Char
  statements : List Char
deriving DecidableEq

/-- The statements of a line as they are written, behind the number. -/
def bodyText (text : List Char) : List Char := Text.trimLeft (text.dropWhile Char.isDigit)

/-- The wording of a line without blanks around it. -/
def wording (text : List Char) : Wording :=
  ⟨text.takeWhile Char.isDigit, Text.upper (bodyText text)⟩

/-- The line that a wording stands for. -/
def Wording.read (w : Wording) (index : Nat) : Except BasicError Line :=
  if w.digits.isEmpty then .error (.missingLineNumber (index + 1))
  else if decimal w.digits ≤ maxLineNumber then
    (tokens .keywords w.statements).map (Line.mk (decimal w.digits))
  else .error (.lineNumberOutOfRange (String.ofList w.digits))

/-- **A line is read from its wording.** -/
theorem Line.read_eq (index : Nat) (text : List Char) :
    Line.read index text = (wording text).read index := by
  unfold Line.read Line.split Wording.read wording
  dsimp only
  split
  · rfl
  · split
    · show (tokenizeBody (bodyText text) >>= _) = (tokenizeBody (bodyText text)).map _
      cases tokenizeBody (bodyText text) <;> rfl
    · rfl

/-! ### Lines that are not blank -/

/-- The lines that are not blank, without the blanks around them, each behind its position. -/
def positioned (index : Nat) : List (List Char) → List (Nat × List Char)
  | [] => []
  | text :: rest =>
    if Text.trim text = [] then positioned (index + 1) rest
    else (index, Text.trim text) :: positioned (index + 1) rest

theorem map_snd_positioned (index : Nat) (texts : List (List Char)) :
    (positioned index texts).map Prod.snd = programLines texts := by
  induction texts generalizing index with
  | nil => rfl
  | cons text rest ih =>
    by_cases hblank : Text.trim text = []
    · simpa [positioned, programLines, hblank] using ih (index + 1)
    · simpa [positioned, programLines, hblank] using ih (index + 1)

/-- Chains lines from an address on. -/
def chainLines (address : Nat) : List (Nat × List Char) → Except BasicError (List UInt8)
  | [] => .ok [0, 0]
  | (index, text) :: rest => do
    let line ← Line.read index text
    if address + line.size > 0xffff then .error .programOverflow
    else (chainLines (address + line.size) rest).map (line.bytes (address + line.size) ++ ·)

/-- **Blank lines count as positions only.** -/
theorem chain_eq (address index : Nat) (texts : List (List Char)) :
    chain address index texts = chainLines address (positioned index texts) := by
  induction texts generalizing address index with
  | nil => rfl
  | cons text rest ih =>
    rw [chain, positioned]
    split
    · rename_i hblank
      rw [if_pos hblank, ih]
    · rename_i hne
      rw [if_neg hne, chainLines]
      simp only [ih]
      rfl

end Asm6502.BasicV2
