import Asm6502.Macro.Context

/-! Macros: procedures that build a block, with variables that a call may set. -/
namespace Asm6502

structure Macro where
  /-- The declared variables and their defaults. -/
  defaults : Variables
  /-- What a call runs, in this order. -/
  procedures : List (Build Unit)

/-- The variables of a call, or an error if it sets some that are not declared. -/
def Variables.override (declared given : Variables) : Except MacroError Variables :=
  match given.names.filter fun name => (declared.get? name).isNone with
  | [] => .ok (declared.merge given)
  | names => .error (.extraneousVariables names)

namespace Macro

/-- Runs procedures one after another on one context until the first that fails. -/
def runAll : List (Build Unit) → Build Unit
  | [] => return ()
  | p :: rest => do
    p
    runAll rest

/-- The block that the procedures build with the given variables. -/
def call (m : Macro) (given : Variables) : Except MacroError Block := do
  let bindings ← m.defaults.override given
  match runAll m.procedures (Context.fresh bindings) with
  | .ok _ c => return c.code
  | .error e _ => throw e

/-- A short description of a macro with so many procedures. -/
def describe (defaults : Variables) (procedures : Nat) : String :=
  "Macro \x7b variables: " ++ defaults.describe ++ ", procedures: " ++ toString procedures
    ++ " \x7d"

end Macro

end Asm6502
