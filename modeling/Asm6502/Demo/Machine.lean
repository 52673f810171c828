import Asm6502.BasicV2.Listing

/-! The machine the demos run on: routines of its operating system, its registers, and the BASIC
line that starts a program. -/
namespace Asm6502.Machine

/-- The routine that clears the screen. -/
def clearScreen : Int := 0xe544

/-- The routine that prints the character in the accumulator. -/
def printChar : Int := 0xffd2

def irqVector : Int := 0x0314
def screen : Int := 0x0400
def borderColor : Int := 0xd020
def backgroundColor : Int := 0xd021
def raster : Int := 0xd012
def videoControl : Int := 0xd011
def videoIrqStatus : Int := 0xd019
def videoIrqEnable : Int := 0xd01a

/-- The code of the hash sign, which ends a line in the texts of the demos. -/
def newline : Int := 0x23

/-- A BASIC program as a block, or an error if its listing is wrong. -/
def stub (listing : String) : Except BasicV2.BasicError Block :=
  (·.code) <$> BasicV2.Tokenized.ofListing listing BasicV2.start true

end Asm6502.Machine
