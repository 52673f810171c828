import Asm6502.Block
import Asm6502.SymbolTable

/-! The layout of a block: the address of every statement and the labels of every block.

Statements are placed one after another from the origin. A nested block goes on at the address it
stands at and keeps its labels to itself. Every statement has to end inside the memory. -/
namespace Asm6502

/-- Why a block cannot be linked. -/
inductive LinkError where
  | invalidOrigin (origin : Int)
  | misaligned (address : Nat) (target : UInt16)
  | unresolvedLabel (name : String)
  | incompleteInstruction (source : String)
  | programOverflow (stop : Nat)
  | operand (source : String) (cause : InstructionError)
  | encoding (cause : EncodeError)
deriving DecidableEq, Repr

def LinkError.message : LinkError → String
  | invalidOrigin origin => "Invalid origin: " ++ toString origin
  | misaligned address target =>
    "Invalid alignment from $" ++ Text.hex 4 address ++ " to $" ++ Text.hex 4 target.toNat
  | unresolvedLabel name => "Label not found: " ++ name
  | incompleteInstruction source => "Instruction without addressing mode: " ++ source
  | programOverflow stop => "Program too large, ends at $" ++ Text.hex 1 stop
  | operand source cause => "Cannot resolve `" ++ source ++ "`: " ++ cause.message
  | encoding cause => cause.message

/-- Something at its address. -/
structure Placed (α : Type) where
  address : Nat
  content : α
deriving DecidableEq

/-- Where a placed block starts and stops, and its labels. -/
structure Scope where
  origin : Nat
  stop : Nat
  labels : SymbolTable
deriving DecidableEq

/-- A label that was given an address for a second time. -/
structure Redefinition where
  name : String
  previous : Nat
  address : Nat
deriving DecidableEq, Repr

def Redefinition.message (r : Redefinition) : String :=
  "Redefinition of label " ++ r.name ++ " from $" ++ Text.hex 4 r.previous ++ " to $"
    ++ Text.hex 4 r.address

/-- What laying out a sequence of statements leaves. -/
structure Layout where
  stop : Nat
  labels : SymbolTable
  body : Outline Scope (Placed Statement)
  warnings : List Redefinition
deriving DecidableEq

namespace Statement

/-- The number of bytes of a statement placed at an address. -/
def sizeAt (address : Nat) : Statement → Except LinkError Nat
  | instruction i =>
    match i.size? with
    | some n => .ok n
    | none => .error (.incompleteInstruction i.source)
  | label _ => .ok 0
  | align a =>
    if a.address.toNat < address then .error (.misaligned address a.address)
    else .ok (a.address.toNat - address)
  | data d => .ok d.bytes.length

/-- The labels after a statement at an address, and the redefinition it makes, if any. -/
def defineAt (address : Nat) (labels : SymbolTable) (s : Statement) :
    List Redefinition × SymbolTable :=
  match s.defines with
  | some name =>
    match labels.define name address with
    | (some previous, labels) => ([⟨name, previous, address⟩], labels)
    | (none, labels) => ([], labels)
  | none => ([], labels)

end Statement

namespace Layout

/-- The address after a statement, which may be the end of the memory but not beyond it. -/
def checkStop (stop : Nat) : Except LinkError Nat :=
  if stop ≤ memorySize then .ok stop else .error (.programOverflow stop)

/-- Lays out statements from an address on, after those that defined `labels`. -/
def place (address : Nat) (labels : SymbolTable) : Block → Except LinkError Layout
  | .nil => .ok ⟨address, labels, .nil, []⟩
  | .item s rest => do
    let size ← s.sizeAt address
    let next ← checkStop (address + size)
    let (warnings, labels) := s.defineAt address labels
    let after ← place next labels rest
    return { after with
      body := .item ⟨address, s⟩ after.body
      warnings := warnings ++ after.warnings }
  | .group _ inner rest => do
    let nested ← place address .empty inner
    let next ← checkStop nested.stop
    let after ← place next labels rest
    return { after with
      body := .group ⟨address, nested.stop, nested.labels⟩ nested.body after.body
      warnings := nested.warnings ++ after.warnings }

end Layout

end Asm6502
