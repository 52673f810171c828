import Asm6502.Block
import Asm6502.Macro.Variables

/-! The context of a macro call: the code built so far, the labels in it, and the variables.

A procedure builds code by operations on the context. An operation that fails leaves the context
as it was. -/
namespace Asm6502

/-- The kinds of value a procedure can ask for. -/
inductive ValueKind where
  | number
  | text
  | bytes
deriving DecidableEq, Repr

def ValueKind.phrase : ValueKind → String
  | number => "a number"
  | text => "text"
  | bytes => "a byte list"

/-- What a value of a kind holds. -/
abbrev ValueKind.Carrier : ValueKind → Type
  | number => Int
  | text => String
  | bytes => List Int

/-- What a value holds, if it is of the kind. -/
def Value.read? : (kind : ValueKind) → Value → Option kind.Carrier
  | .number, .number n => some n
  | .text, .text s => some s
  | .bytes, .bytes ns => some ns
  | _, _ => none

/-- Why a macro call fails. -/
inductive MacroError where
  | notFound (name : String)
  | extraneousVariables (names : List String)
  | instruction (cause : InstructionError)
  | directive (cause : DirectiveError)
  | variableKind (name : String) (expected : ValueKind)
deriving DecidableEq, Repr

def MacroError.message : MacroError → String
  | notFound name => name ++ " is neither a mnemonic nor a variable"
  | extraneousVariables names => "Extraneous variables " ++ ", ".intercalate names
  | instruction cause => "Operand error: " ++ cause.message
  | directive cause => cause.message
  | variableKind name expected => "variable " ++ name ++ " is not " ++ expected.phrase

structure Context where
  code : Block
  labels : List String
  bindings : Variables

namespace Context

/-- The context at the start of a call. -/
def fresh (bindings : Variables) : Context := ⟨.empty, [], bindings⟩

def push (c : Context) (s : Statement) : Context := { c with code := c.code.push s }

/-- Takes note of a label in the code. -/
def register (c : Context) (name : String) : Context :=
  { c with labels := if name ∈ c.labels then c.labels else c.labels ++ [name] }

def hasLabel (c : Context) (name : String) : Bool := c.labels.contains name

end Context

/-- Procedures, which build code and may fail. -/
abbrev Build := EStateM MacroError Context

namespace Build

def emit (i : Except InstructionError Instruction) : Build Unit :=
  match i with
  | .ok i => modify fun c => c.push (.instruction i)
  | .error e => throw (.instruction e)

def emitDirective (s : Except DirectiveError Statement) : Build Unit :=
  match s with
  | .ok s => modify fun c => c.push s
  | .error e => throw (.directive e)

/-- Appends an instruction whose mode follows from its argument. -/
def ins (m : Mnemonic) (argument : Argument) : Build Unit :=
  emit (Instruction.infer m argument none)

/-- Appends an instruction on a label with a modifier. -/
def insMod (m : Mnemonic) (argument : Argument) (modifier : Modifier) : Build Unit :=
  emit (Instruction.infer m argument (some modifier))

/-- Appends an instruction in a given mode. -/
def insMode (m : Mnemonic) (mode : Mode) (argument : Argument) (modifier : Option Modifier) :
    Build Unit :=
  emit (Instruction.inMode m mode argument modifier)

/-- Appends an instruction with an immediate argument. -/
def imm (m : Mnemonic) (argument : Argument) : Build Unit :=
  emit (Instruction.inMode m .immediate argument none)

/-- The value of a variable. -/
def var (name : String) : Build Value := do
  match (← get).bindings.get? name with
  | some value => return value
  | none => throw (.notFound name)

/-- Appends the instruction of this name, or finds the variable of this name if no mnemonic is
called so. -/
def dispatch (name : String) (argument : Argument) (modifier : Option Modifier) :
    Build (Option Value) :=
  match Mnemonic.ofName? name with
  | some m => do
    emit (Instruction.infer m argument modifier)
    return none
  | none => some <$> var name

/-- Gives a name to the current place. -/
def label (name : String) : Build Unit := do
  emitDirective (.label <$> Label.ofName name)
  modify fun c => c.register name

/-- Goes on at an address. -/
def align (address : Int) : Build Unit :=
  emitDirective (.align <$> Align.ofInt address)

def data (content : Content) (mode : DataMode) : Build Unit :=
  emitDirective (.data <$> Data.ofContent content mode)

/-- Appends a block with labels of its own. -/
def block (b : Block) : Build Unit :=
  modify fun c => { c with code := c.code.nest b }

/-- Appends the contents of a block, whose labels become labels of the code. -/
def insert (b : Block) : Build Unit :=
  modify fun c => b.labelNames.foldl Context.register { c with code := c.code ++ b }

/-- Is there a label of this name in the code so far? -/
def hasLabel (name : String) : Build Bool :=
  return (← get).hasLabel name

/-- What a variable holds, which has to be of the kind. -/
def fetch (kind : ValueKind) (name : String) : Build kind.Carrier := do
  match (← var name).read? kind with
  | some a => return a
  | none => throw (.variableKind name kind)

def number (name : String) : Build Int := fetch .number name

def text (name : String) : Build String := fetch .text name

def bytes (name : String) : Build (List Int) := fetch .bytes name

end Build

end Asm6502
