import Asm6502.Demo.Machine
import Asm6502.Macro.Call

/-! A demo that prints a message, started by a BASIC line. -/
namespace Asm6502.HelloWorld

open Build Machine in
/-- The routine at `$c000` and its message. -/
def printMessage (stub : Block) : Build Unit := do
  block stub
  align 0xc000
  ins .jsr clearScreen
  imm .ldx 0
  label "load"
  insMode .lda .absoluteX "msg" none
  imm .cmp newline
  ins .beq "finish"
  ins .jsr printChar
  ins .inx .none
  ins .jmp "load"
  label "finish"
  ins .rts .none
  let message ← text "message"
  label "msg"
  data (.text message) .plain

/-- Prints the text in the variable `message`. -/
def program : Except BasicV2.BasicError Macro := do
  let stub ← Machine.stub "10 SYS 49152"
  return ⟨.ofList [("message", .text "HELLO WORLD#")], [printMessage stub]⟩

end Asm6502.HelloWorld
