import Asm6502.Layout

/-! Programs: blocks after linking.

Linking lays the block out from its origin and then resolves every label reference against the
labels of the block that holds it. A linked statement carries the bytes it contributes, so the
machine code is the concatenation of the leaves. -/
namespace Asm6502

/-- A statement with its operand settled, and the bytes it contributes to the program. -/
structure Emitted where
  statement : Statement
  bytes : List UInt8
deriving DecidableEq

/-- A linked block. -/
structure Program where
  scope : Scope
  body : Outline Scope (Placed Emitted)
  warnings : List Redefinition
deriving DecidableEq

/-! ### References -/

/-- The address a label stands for in an instruction at the given address. -/
def SymbolTable.target (labels : SymbolTable) (address : Nat) (name : String) :
    Except LinkError Nat :=
  if name = Argument.selfReference then .ok address
  else
    match labels.address? name with
    | some target => .ok target
    | none => .error (.unresolvedLabel name)

/-- The number that stands for a target in an instruction: a branch counts from the instruction
behind it, every other mode takes the address. -/
def Mode.reference (mode : Option Mode) (address target : Nat) : Int :=
  if mode = some .relative then (target : Int) - address - 2 else target

/-- Settles the operand of an instruction at an address. -/
def Instruction.resolveAt (labels : SymbolTable) (address : Nat) (i : Instruction) :
    Except LinkError Instruction :=
  match i.label? with
  | some name =>
    if i.isReady then .ok i
    else do
      let target ← labels.target address name
      match i.resolve (Mode.reference i.mode? address target) with
      | .ok j => return j
      | .error e => throw (.operand i.source e)
  | none => .ok i

/-- The bytes of a statement at an address. An alignment contributes zeroes up to its target. -/
def Statement.emit (labels : SymbolTable) (address : Nat) : Statement → Except LinkError Emitted
  | instruction i => do
    let i ← i.resolveAt labels address
    match i.encode with
    | .ok bytes => return ⟨instruction i, bytes⟩
    | .error e => throw (.encoding e)
  | label l => .ok ⟨label l, []⟩
  | align a => .ok ⟨align a, List.replicate (a.address.toNat - address) 0⟩
  | data d => .ok ⟨data d, d.bytes⟩

/-- Emits placed statements, each with the labels of its own block. -/
def Layout.emit (labels : SymbolTable) :
    Outline Scope (Placed Statement) → Except LinkError (Outline Scope (Placed Emitted))
  | .nil => .ok .nil
  | .item p rest => do
    let e ← p.content.emit labels p.address
    let rest ← emit labels rest
    return .item ⟨p.address, e⟩ rest
  | .group scope inner rest => do
    let inner ← emit scope.labels inner
    let rest ← emit labels rest
    return .group scope inner rest

/-! ### Linking -/

namespace Block

/-- The alignment that is the first statement, in a first nested block if need be. -/
def leadingAlign? : Block → Option Align
  | .item (.align a) _ => some a
  | .group _ inner _ => leadingAlign? inner
  | _ => none

/-- Lays out and emits a block from an address on. -/
def linkFrom (b : Block) (origin : Nat) : Except LinkError Program := do
  let layout ← Layout.place origin .empty b
  let body ← Layout.emit layout.labels layout.body
  return ⟨⟨origin, layout.stop, layout.labels⟩, body, layout.warnings⟩

/-- Links a block. An alignment at its very start decides the origin, but the origin asked for
has to be an address in any case. -/
def link (b : Block) (origin : Int) : Except LinkError Program :=
  match Word.ofInt? origin with
  | some address =>
    let address := match b.leadingAlign? with
      | some a => a.address
      | none => address
    b.linkFrom address.toNat
  | none => .error (.invalidOrigin origin)

/-- The origin of programs that do not ask for one. -/
def defaultOrigin : Int := 0x1000

end Block

namespace Program

/-- The address of the first byte. -/
def origin (p : Program) : Nat := p.scope.origin

/-- The address after the last byte. -/
def stop (p : Program) : Nat := p.scope.stop

def labels (p : Program) : SymbolTable := p.scope.labels

/-- The machine code. -/
def code (p : Program) : List UInt8 := p.body.leaves.flatMap fun e => e.content.bytes

/-- The program file: the origin, low byte first, and the machine code. -/
def image (p : Program) : List UInt8 := Word.littleEndian p.origin ++ p.code

end Program

end Asm6502
