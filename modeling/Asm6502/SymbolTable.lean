/-! Symbol tables: the labels of a block and their addresses, in order of first definition. -/
namespace Asm6502

structure Symbol where
  name : String
  address : Nat
deriving DecidableEq, Repr

structure SymbolTable where
  symbols : List Symbol
deriving DecidableEq, Repr

namespace SymbolTable

def empty : SymbolTable := ⟨[]⟩

def find? (t : SymbolTable) (name : String) : Option Symbol :=
  t.symbols.find? fun s => s.name = name

def address? (t : SymbolTable) (name : String) : Option Nat :=
  (t.find? name).map Symbol.address

/-- Gives a name an address. A name defined before keeps its place, and its former address is
returned. -/
def defineIn (name : String) (address : Nat) : List Symbol → Option Nat × List Symbol
  | [] => (none, [⟨name, address⟩])
  | s :: rest =>
    if s.name = name then (some s.address, ⟨name, address⟩ :: rest)
    else
      let (previous, rest) := defineIn name address rest
      (previous, s :: rest)

@[inherit_doc defineIn]
def define (t : SymbolTable) (name : String) (address : Nat) : Option Nat × SymbolTable :=
  let (previous, symbols) := defineIn name address t.symbols
  (previous, ⟨symbols⟩)

def size (t : SymbolTable) : Nat := t.symbols.length

def isEmpty (t : SymbolTable) : Bool := t.symbols.isEmpty

end SymbolTable

end Asm6502
