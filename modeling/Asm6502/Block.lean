import Asm6502.Directive
import Asm6502.Instruction
import Asm6502.Outline

/-! Blocks: the statements of a program before they have addresses.

A statement is an instruction, a label, an alignment or some data. A block is a sequence of
statements and nested blocks, each with labels of its own. -/
namespace Asm6502

inductive Statement where
  | instruction (i : Instruction)
  | label (l : Label)
  | align (a : Align)
  | data (d : Data)
deriving DecidableEq

namespace Statement

/-- Can the statement be encoded without any address? -/
def isReady : Statement → Bool
  | instruction i => i.isReady
  | _ => true

/-- The statement as written in a listing. -/
def source : Statement → String
  | instruction i => i.source
  | label l => l.name
  | align a => a.source
  | data d => d.source

/-- The name that the statement gives to its address. -/
def defines : Statement → Option String
  | label l => some l.name
  | _ => none

end Statement

abbrev Block := Outline Unit Statement

namespace Block

def empty : Block := .nil

/-- The block of one statement. -/
def single (s : Statement) : Block := .item s .nil

/-- The block whose only entry is a nested block. -/
def nested (b : Block) : Block := .group () b .nil

def push (b : Block) (s : Statement) : Block := b ++ single s

def nest (b inner : Block) : Block := b ++ nested inner

def isEmpty (b : Block) : Bool := b.length == 0

/-- Can all statements, nested ones included, be encoded without any address? -/
def isReady (b : Block) : Bool := b.leaves.all Statement.isReady

/-- The names that the statements directly in the block define. -/
def labelNames (b : Block) : List String := b.items.filterMap Statement.defines

end Block

end Asm6502
