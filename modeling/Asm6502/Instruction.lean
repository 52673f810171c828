import Asm6502.Modifier
import Asm6502.Opcode
import Asm6502.Word

/-! Instructions: a mnemonic with its argument and what is known of its operand.

The operand is *undecided* while no addressing mode is chosen, *pending* while the mode is chosen
and the address of a label is awaited, and *settled* once its value is known to lie in the domain
of the mode. `Instruction.infer` chooses the mode by the argument, `Instruction.inMode` takes it as
given, and `Instruction.resolve` settles a pending operand. Only a settled instruction can be
encoded. -/
namespace Asm6502

/-- Why an instruction cannot be built or resolved. -/
inductive InstructionError where
  | unknownMnemonic (name : String)
  | unsupportedMode (mnemonic : Mnemonic) (mode : Mode)
  | noByteMode (mnemonic : Mnemonic) (value : Int)
  | argumentOutOfRange (mnemonic : Mnemonic) (value : Int)
  | unexpectedArgument (mnemonic : Mnemonic) (mode : Mode)
  | missingArgument (mnemonic : Mnemonic) (mode : Mode)
  | labelNotSupported (mnemonic : Mnemonic) (label : String)
  | labelInWrongMode (mnemonic : Mnemonic) (mode : Mode) (label : String)
  | modifierWithoutLabel (mnemonic : Mnemonic)
  | byteModifierUnsupported (mnemonic : Mnemonic)
  | invalidModifier (modifier : Modifier) (value : Int)
  | alreadySettled (mnemonic : Mnemonic)
  | missingMode (mnemonic : Mnemonic)
deriving DecidableEq, Repr

def InstructionError.message : InstructionError → String
  | unknownMnemonic name => "Unknown mnemonic: " ++ name
  | unsupportedMode m mode =>
    "Addressing mode " ++ mode.name ++ " is not supported by " ++ m.name
  | noByteMode m value =>
    "No addressing mode of " ++ m.name ++ " handles the argument $" ++ Text.hex 2 value.toNat
  | argumentOutOfRange m value =>
    "Argument " ++ toString value ++ " out of range for " ++ m.name
  | unexpectedArgument m mode => m.name ++ " takes no argument in " ++ mode.name ++ " mode"
  | missingArgument m mode => m.name ++ " needs a numeric argument in " ++ mode.name ++ " mode"
  | labelNotSupported m label =>
    "Label " ++ label ++ " used with " ++ m.name ++ " which has no absolute or relative mode"
  | labelInWrongMode m mode label =>
    "Label " ++ label ++ " used with " ++ m.name ++ " in the wrong addressing mode " ++ mode.name
  | modifierWithoutLabel m => "Modifier used with non-label argument of " ++ m.name
  | byteModifierUnsupported m =>
    "Byte modifier used with " ++ m.name ++ " which has no immediate mode"
  | invalidModifier modifier value =>
    "Modifier " ++ modifier.name ++ " cannot be applied to " ++ toString value
  | alreadySettled m => "Operand " ++ m.name ++ " is already resolved"
  | missingMode m => "No addressing mode selected for " ++ m.name

/-- Why an instruction cannot be encoded. -/
inductive EncodeError where
  | invalidOpcode (source : String)
  | notReady (source : String)
deriving DecidableEq, Repr

def EncodeError.message : EncodeError → String
  | invalidOpcode source => "Invalid opcode: " ++ source
  | notReady source => "Instruction not resolved: " ++ source

/-- What is known of an operand. A settled operand has no value if its mode has none. -/
inductive Operand where
  | undecided
  | pending (mode : Mode)
  | settled (mode : Mode) (value : Option Int)
deriving DecidableEq, Repr

structure Instruction where
  mnemonic : Mnemonic
  argument : Argument
  modifier : Option Modifier
  operand : Operand
deriving DecidableEq, Repr

namespace Operand

def mode? : Operand → Option Mode
  | undecided => none
  | pending mode => some mode
  | settled mode _ => some mode

def value? : Operand → Option Int
  | settled _ value => value
  | _ => none

def isSettled : Operand → Bool
  | settled _ _ => true
  | _ => false

end Operand

namespace Instruction

def mode? (i : Instruction) : Option Mode := i.operand.mode?

/-- The number the operand encodes, once known. -/
def value? (i : Instruction) : Option Int := i.operand.value?

def label? (i : Instruction) : Option String := i.argument.label?

/-- Is everything known that the encoding needs? -/
def isReady (i : Instruction) : Bool := i.operand.isSettled

/-- The number of bytes of the opcode and its operand, once the mode is known. -/
def size? (i : Instruction) : Option Nat :=
  i.mode?.map fun mode => 1 + mode.operandSize

def timing? (i : Instruction) : Option Timing := do
  let mode ← i.mode?
  let e ← i.mnemonic.encoding? mode
  return e.timing

/-! ### Choosing the mode -/

/-- Checks a value against the domain of a mode; a mode without operand takes no value. -/
def validate (m : Mnemonic) (mode : Mode) (value : Option Int) :
    Except InstructionError (Option Int) :=
  match mode.domain, value with
  | none, none => .ok none
  | none, some _ => .error (.unexpectedArgument m mode)
  | some _, none => .error (.missingArgument m mode)
  | some (lo, hi), some v =>
    if lo ≤ v ∧ v ≤ hi then .ok (some v) else .error (.argumentOutOfRange m v)

/-- The modes that a number may select, in order of preference. A byte means an address in the
zero page before it means itself. -/
def literalModes (value : Int) : List Mode :=
  if 0 ≤ value ∧ value ≤ 0xff then [.zeroPage, .immediate, .absolute]
  else if 0x100 ≤ value ∧ value ≤ 0xffff then [.absolute]
  else []

def inferLiteral (m : Mnemonic) (value : Int) : Except InstructionError Mode :=
  match (literalModes value).find? m.supports with
  | some mode => .ok mode
  | none =>
    if 0 ≤ value ∧ value ≤ 0xff then .error (.noByteMode m value)
    else .error (.argumentOutOfRange m value)

/-- The mode of an instruction without a label: the implied mode, the accumulator when there is
no argument, the only mode, or the mode that the number selects. -/
def inferMode (m : Mnemonic) (value : Option Int) : Except InstructionError (Option Mode) :=
  if m.supports .implied then .ok (some .implied)
  else if value.isNone ∧ m.supports .accumulator then .ok (some .accumulator)
  else
    match m.onlyMode?, value with
    | some mode, _ => .ok (some mode)
    | none, some v => some <$> inferLiteral m v
    | none, none => .ok none

/-- The mode of an instruction on a label: absolute before relative. -/
def labelMode (m : Mnemonic) (label : String) : Except InstructionError Mode :=
  if m.supports .absolute then .ok .absolute
  else if m.supports .relative then .ok .relative
  else .error (.labelNotSupported m label)

/-- An inferred mode under a modifier: the bytes of an address are immediate operands. -/
def modifiedMode (m : Mnemonic) (mode : Mode) (modifier : Option Modifier) :
    Except InstructionError Mode :=
  match modifier with
  | some x =>
    if x.takesByte then
      if m.supports .immediate then .ok .immediate else .error (.byteModifierUnsupported m)
    else .ok mode
  | none => .ok mode

/-- Builds an instruction whose mode follows from its argument. The operand stays undecided when
there is no argument and the mnemonic has several modes. -/
def infer (m : Mnemonic) (argument : Argument) (modifier : Option Modifier) :
    Except InstructionError Instruction :=
  match argument with
  | .label name => do
    let mode ← labelMode m name
    let mode ← modifiedMode m mode modifier
    return ⟨m, argument, modifier, .pending mode⟩
  | _ => do
    let operand ←
      match ← inferMode m argument.literal? with
      | some mode => Operand.settled mode <$> validate m mode argument.literal?
      | none => pure .undecided
    if modifier.isSome then throw (.modifierWithoutLabel m)
    return ⟨m, argument, none, operand⟩

/-- Builds an instruction in the given mode. A label needs a mode that admits one, or the
immediate mode together with a modifier; a byte of an address needs the immediate mode. -/
def inMode (m : Mnemonic) (mode : Mode) (argument : Argument) (modifier : Option Modifier) :
    Except InstructionError Instruction :=
  if !m.supports mode then .error (.unsupportedMode m mode)
  else
    match argument with
    | .label name =>
      if !(mode.admitsLabel || (modifier.isSome && mode = .immediate)) then
        .error (.labelInWrongMode m mode name)
      else if modifier.any Modifier.takesByte && mode ≠ .immediate then
        .error (.labelInWrongMode m mode name)
      else .ok ⟨m, argument, modifier, .pending mode⟩
    | _ => do
      let value ← validate m mode argument.literal?
      if modifier.isSome then throw (.modifierWithoutLabel m)
      return ⟨m, argument, none, .settled mode value⟩

/-- Builds an instruction from the name of its mnemonic. -/
def named (name : String) (argument : Argument) (modifier : Option Modifier) :
    Except InstructionError Instruction :=
  match Mnemonic.ofName? name with
  | some m => infer m argument modifier
  | none => .error (.unknownMnemonic name)

/-- Chooses mode, argument and modifier anew, unless the operand is settled. -/
def withMode (i : Instruction) (mode : Mode) (argument : Argument) (modifier : Option Modifier) :
    Except InstructionError Instruction :=
  if i.isReady then .error (.alreadySettled i.mnemonic)
  else inMode i.mnemonic mode argument modifier

/-! ### Resolving and encoding -/

/-- The value of a label under the modifier of the instruction. -/
def modified (i : Instruction) (value : Int) : Except InstructionError Int :=
  match i.modifier with
  | some x =>
    match x.apply value with
    | some v => .ok v
    | none => .error (.invalidModifier x value)
  | none => .ok value

/-- Settles the operand of a label in place, by the value of the label, which is its address, or its
distance for the relative mode. An instruction that is settled or has no label stays as it is. -/
def settle (value : Int) : EStateM InstructionError Instruction Unit := do
  let i ← get
  match i.label?, i.operand with
  | none, _ => return ()
  | some _, .settled _ _ => return ()
  | some _, .undecided => throw (.missingMode i.mnemonic)
  | some _, .pending mode =>
    let v ← ofExcept (i.modified value)
    let value ← ofExcept (validate i.mnemonic mode (some v))
    set { i with operand := .settled mode value }

/-- The instruction as settling leaves it, or why it fails. -/
def resolve (i : Instruction) (value : Int) : Except InstructionError Instruction :=
  match settle value i with
  | .ok _ j => .ok j
  | .error e _ => .error e

/-- The argument as written in a listing. The distance of a branch counts from the instruction
itself, which is two bytes long. -/
def renderArgument (i : Instruction) (mode : Mode) : String :=
  match i.argument with
  | .label name =>
    match i.modifier with
    | some x => x.render name
    | none => name
  | .literal value =>
    if mode = .relative then Argument.selfReference ++ Text.signed (value + 2)
    else "$" ++ Text.hex (2 * mode.operandSize) value.toNat
  | .none => ""

/-- The instruction as written in a listing. -/
def source (i : Instruction) : String :=
  match i.mode? with
  | some mode =>
    if mode.operandSize = 0 then i.mnemonic.name
    else i.mnemonic.name ++ mode.render (i.renderArgument mode)
  | none => i.mnemonic.name

/-- The bytes of an operand of the given size, in two's complement and low byte first. -/
def operandBytes (size : Nat) (value : Int) : List UInt8 :=
  match size with
  | 1 => [UInt8.ofInt value]
  | 2 => Word.littleEndian (value % 0x10000).toNat
  | _ => []

/-- The machine code of a settled instruction. -/
def encode (i : Instruction) : Except EncodeError (List UInt8) :=
  match i.operand with
  | .settled mode value =>
    match i.mnemonic.encoding? mode with
    | some e =>
      .ok (e.opcode :: match value with
        | some v => operandBytes mode.operandSize v
        | none => [])
    | none => .error (.invalidOpcode i.source)
  | _ => .error (.notReady i.source)

end Instruction

end Asm6502
