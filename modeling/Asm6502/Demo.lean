import Asm6502.Assembly
import Asm6502.Demo.HelloWorld
import Asm6502.Demo.RasterBars

/-! The demo programs by name. -/
namespace Asm6502

inductive Demo where
  | helloWorld
  | rasterBars
deriving DecidableEq, Repr

namespace Demo

def all : List Demo := [helloWorld, rasterBars]

def name : Demo → String
  | helloWorld => "hello-world"
  | rasterBars => "raster-bars"

def ofName? (s : String) : Option Demo := all.find? fun d => d.name = s

/-- The macro that builds the demo. -/
def program : Demo → Except BasicV2.BasicError Macro
  | helloWorld => HelloWorld.program
  | rasterBars => RasterBars.program

/-- The demo with the given variables, as a block. -/
def build (d : Demo) (given : Variables) : Except AssemblyError Block :=
  match d.program with
  | .ok m =>
    match m.call given with
    | .ok b => .ok b
    | .error e => .error (.call e)
  | .error e => .error (.basic e)

/-- The demo with its default variables, linked at the default origin. -/
def assemble (d : Demo) : Except AssemblyError Program := do
  let b ← d.build .empty
  match b.link Block.defaultOrigin with
  | .ok p => return p
  | .error e => throw (.link e)

end Demo

end Asm6502
