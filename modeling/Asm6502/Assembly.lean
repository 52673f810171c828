import Asm6502.BasicV2.Listing
import Asm6502.Listing
import Asm6502.Macro.Script

/-! Assembling in one go: a source of code, its linking, and the forms in which a program can be
written. -/
namespace Asm6502

/-- Why code cannot be assembled. -/
inductive AssemblyError where
  | instruction (cause : InstructionError)
  | directive (cause : DirectiveError)
  | link (cause : LinkError)
  | call (cause : MacroError)
  | basic (cause : BasicV2.BasicError)
deriving DecidableEq

def AssemblyError.message : AssemblyError → String
  | instruction cause => "Operand error: " ++ cause.message
  | directive cause => "Node error: " ++ cause.message
  | link cause => "Linker error: " ++ cause.message
  | call cause => "Macro error: " ++ cause.message
  | basic cause => "BASIC error: " ++ cause.message

/-- The program file of a block. -/
def Block.assemble (b : Block) (origin : Int) : Except AssemblyError (List UInt8) :=
  match b.link origin with
  | .ok p => .ok p.image
  | .error e => .error (.link e)

/-- What is written for a program. -/
inductive OutputFormat where
  /-- The program file. -/
  | prg
  /-- The source. -/
  | src
  /-- The dump. -/
  | dump
deriving DecidableEq, Repr

namespace OutputFormat

def all : List OutputFormat := [prg, src, dump]

def name : OutputFormat → String
  | prg => "prg"
  | src => "src"
  | dump => "dump"

def ofName? (s : String) : Option OutputFormat := all.find? fun f => f.name = s

end OutputFormat

/-- Lines of text, each with its newline. -/
def encodeLines (lines : List String) : List UInt8 :=
  lines.flatMap fun line => (line ++ "\n").toUTF8.toList

/-- The bytes of a program in a format. -/
def Program.render (p : Program) : OutputFormat → List UInt8
  | .prg => p.image
  | .src => encodeLines p.source
  | .dump => encodeLines p.dump

end Asm6502
