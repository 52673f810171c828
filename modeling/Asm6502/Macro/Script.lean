import Asm6502.Macro.Call

/-! Scripts: procedures written down as lists of steps, and what happens when they run.

A step is one operation on the context, whose argument may be taken from a variable or from the
block that another macro builds. A step that fails ends the run, unless it is marked to be
tolerated. A run keeps a log with the outcome of every step, those of called macros included. -/
namespace Asm6502

/-- One operation on a context. -/
inductive Operation where
  | ins (m : Mnemonic) (argument : Argument)
  | insMod (m : Mnemonic) (argument : Argument) (modifier : Modifier)
  | insMode (m : Mnemonic) (mode : Mode) (argument : Argument) (modifier : Option Modifier)
  | imm (m : Mnemonic) (argument : Argument)
  | dispatch (name : String) (argument : Argument) (modifier : Option Modifier)
  | label (name : String)
  | align (address : Int)
  | data (content : Content) (mode : DataMode)
  | block (b : Block)
  | insert (b : Block)
  | hasLabel (name : String)
  | var (name : String)
  | number (name : String)
  | text (name : String)
  | bytes (name : String)

/-- What an operation that succeeds answers. -/
inductive Answer where
  | done
  | emitted
  | found (value : Value)
  | flag (b : Bool)
  | number (n : Int)
  | text (s : String)
  | bytes (ns : List Int)
deriving DecidableEq

def Operation.run : Operation → Build Answer
  | ins m argument => (fun _ => .done) <$> Build.ins m argument
  | insMod m argument modifier => (fun _ => .done) <$> Build.insMod m argument modifier
  | insMode m mode argument modifier =>
    (fun _ => .done) <$> Build.insMode m mode argument modifier
  | imm m argument => (fun _ => .done) <$> Build.imm m argument
  | dispatch name argument modifier =>
    (fun
      | some value => .found value
      | none => .emitted) <$> Build.dispatch name argument modifier
  | label name => (fun _ => .done) <$> Build.label name
  | align address => (fun _ => .done) <$> Build.align address
  | data content mode => (fun _ => .done) <$> Build.data content mode
  | block b => (fun _ => .done) <$> Build.block b
  | insert b => (fun _ => .done) <$> Build.insert b
  | hasLabel name => .flag <$> Build.hasLabel name
  | var name => .found <$> Build.var name
  | number name => .number <$> Build.number name
  | text name => .text <$> Build.text name
  | bytes name => .bytes <$> Build.bytes name

/-! ### Steps -/

/-- What a step does. All but `perform` first fetch what the operation is made from. -/
inductive Action where
  | perform (op : Operation)
  | withNumber (name : String) (op : Int → Operation)
  | withText (name : String) (op : String → Operation)
  | withBytes (name : String) (op : List Int → Operation)
  | withCall (callee : String) (given : Variables) (op : Block → Operation)

structure Step where
  action : Action
  /-- Does the run go on if the step fails? -/
  tolerated : Bool

/-- The outcome of a step. -/
abbrev Outcome := Except MacroError Answer

/-- What a run leaves: the outcomes in order, the context, and the error that ended it, if any. -/
structure Run where
  log : List Outcome
  context : Context
  failure : Option MacroError

/-- What a call of a macro leaves. -/
structure Called where
  log : List Outcome
  result : Except MacroError Block

/-- The run that consists of one build. -/
def Run.ofBuild (b : Build Answer) (c : Context) : Run :=
  match b c with
  | .ok answer c => ⟨[.ok answer], c, none⟩
  | .error e c => ⟨[.error e], c, some e⟩

/-- Runs an action, with `call` for the macros it may use. -/
def Action.run (call : String → Variables → Called) (action : Action) (c : Context) : Run :=
  match action with
  | perform op => .ofBuild op.run c
  | withNumber name op => .ofBuild (do (op (← Build.number name)).run) c
  | withText name op => .ofBuild (do (op (← Build.text name)).run) c
  | withBytes name op => .ofBuild (do (op (← Build.bytes name)).run) c
  | withCall callee given op =>
    let called := call callee given
    let r := Run.ofBuild (do (op (← ofExcept called.result)).run) c
    { r with log := called.log ++ r.log }

/-- Runs steps one after another until one fails that is not tolerated. -/
def Step.runAll (call : String → Variables → Called) : List Step → Context → Run
  | [], c => ⟨[], c, none⟩
  | step :: rest, c =>
    let first := step.action.run call c
    if first.failure.isSome && !step.tolerated then first
    else
      let after := runAll call rest first.context
      { after with log := first.log ++ after.log }

/-! ### Scripted macros -/

structure Script where
  defaults : Variables
  procedures : List (List Step)

namespace Script

/-- Runs procedures one after another until the first that fails. -/
def runProcedures (call : String → Variables → Called) : List (List Step) → Context → Run
  | [], c => ⟨[], c, none⟩
  | steps :: rest, c =>
    let first := Step.runAll call steps c
    if first.failure.isSome then first
    else
      let after := runProcedures call rest first.context
      { after with log := first.log ++ after.log }

/-- Calls a script, with `call` for the macros it may use. -/
def call (call : String → Variables → Called) (s : Script) (given : Variables) : Called :=
  match s.defaults.override given with
  | .ok bindings =>
    let r := runProcedures call s.procedures (Context.fresh bindings)
    ⟨r.log, match r.failure with
      | some e => .error e
      | none => .ok r.context.code⟩
  | .error e => ⟨[], .error e⟩

/-- Calls the macro of a name. The latest definition comes first, and each may use those that
were there before it. -/
def callNamed : List (String × Script) → String → Variables → Called
  | [], name, _ => ⟨[], .error (.notFound name)⟩
  | (defined, script) :: earlier, name, given =>
    if defined = name then script.call (fun n vs => callNamed earlier n vs) given
    else callNamed earlier name given

end Script

end Asm6502
