import Asm6502.Program

/-! Listings: the source text of blocks and programs, and the dump of a program, which shows
addresses and bytes beside the source. -/
namespace Asm6502

namespace Listing

/-- The line that opens a block. -/
def blockStart : String := ".block"

/-- The line that closes a block. -/
def blockEnd : String := ".bend"

/-- The lines of an outline, every group between the two lines of a block. -/
def lines {η α : Type} (source : α → String) : Outline η α → List String
  | .nil => []
  | .item a rest => source a :: lines source rest
  | .group _ inner rest =>
    blockStart :: lines source inner ++ blockEnd :: lines source rest

/-- A line of a dump: address, bytes and source. -/
def dumpLine (address : Nat) (bytes separator source : String) : String :=
  "$" ++ Text.hexUpper 4 address ++ "   " ++ Text.column 8 bytes ++ "   " ++ separator ++ source

/-- The bytes of an instruction as a dump shows them. -/
def byteColumn (bytes : List UInt8) : String :=
  " ".intercalate (bytes.map fun b => Text.hexUpper 2 b.toNat)

/-- The line of a statement. A label stands at the margin, and data are not shown in bytes. -/
def statementLine (p : Placed Emitted) : String :=
  let source := p.content.statement.source
  match p.content.statement with
  | .instruction _ => dumpLine p.address (byteColumn p.content.bytes) "\t" source
  | .label _ => dumpLine p.address "" "" source
  | .align _ => dumpLine p.address "" "\t" source
  | .data _ => dumpLine p.address ".. .. .." "\t" source

def dumpLines : Outline Scope (Placed Emitted) → List String
  | .nil => []
  | .item p rest => statementLine p :: dumpLines rest
  | .group scope inner rest =>
    dumpLine scope.origin "" "\t" blockStart :: dumpLines inner
      ++ dumpLine scope.stop "" "\t" blockEnd :: dumpLines rest

end Listing

/-- The source of a block. -/
def Block.source (b : Block) : List String :=
  Listing.blockStart :: Listing.lines Statement.source b ++ [Listing.blockEnd]

namespace Program

/-- The source of a program. -/
def source (p : Program) : List String :=
  Listing.blockStart :: Listing.lines (fun e => e.content.statement.source) p.body
    ++ [Listing.blockEnd]

/-- The dump of a program, without the line that opens it. -/
def dump (p : Program) : List String :=
  Listing.dumpLines p.body ++ [Listing.dumpLine p.stop "" "\t" Listing.blockEnd]

end Program

end Asm6502
