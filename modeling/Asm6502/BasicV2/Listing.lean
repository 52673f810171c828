import Asm6502.BasicV2.Line
import Asm6502.Block

/-! BASIC V2 listings and the programs they become.

In memory a program is a chain of lines, each starting with the address of the next one, and ends
with a link of zero. -/
namespace Asm6502.BasicV2

/-- The texts between the newlines. -/
def splitLines : List Char → List (List Char)
  | [] => [[]]
  | c :: rest =>
    if c = '\n' then [] :: splitLines rest
    else
      match splitLines rest with
      | [] => [[c]]
      | line :: lines => (c :: line) :: lines

/-- Chains the lines of a listing from an address on. Blank lines count as positions only. -/
def chain (address index : Nat) : List (List Char) → Except BasicError (List UInt8)
  | [] => .ok [0, 0]
  | text :: rest =>
    match Text.trim text with
    | [] => chain address (index + 1) rest
    | text => do
      let line ← Line.read index text
      let next := address + line.size
      if next > 0xffff then throw .programOverflow
      let after ← chain next (index + 1) rest
      return line.bytes next ++ after

/-- The program of a listing as it is in memory from an address on. -/
def tokenize (listing : String) (origin : UInt16) : Except BasicError (List UInt8) :=
  chain origin.toNat 0 (splitLines listing.toList)

/-- The address at which the machine loads programs. -/
def start : Int := 0x0801

/-- A tokenized listing. -/
structure Tokenized where
  listing : String
  origin : UInt16
  aligned : Bool
  bytes : List UInt8
deriving DecidableEq

namespace Tokenized

/-- Tokenizes a listing for an origin. With `aligned` its block asks for that origin. -/
def ofListing (listing : String) (origin : Int) (aligned : Bool) : Except BasicError Tokenized :=
  match Word.ofInt? origin with
  | some address => do
    let bytes ← tokenize listing address
    return ⟨listing, address, aligned, bytes⟩
  | none => .error (.invalidOrigin origin)

/-- The program as a block, to stand in front of machine code. -/
def code (t : Tokenized) : Block :=
  let body := Block.single (.data (Data.ofBytes t.bytes))
  if t.aligned then .item (.align ⟨t.origin⟩) body else body

end Tokenized

end Asm6502.BasicV2
