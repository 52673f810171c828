import Asm6502.CommandLine.Arguments
import Asm6502.Demo
import Asm6502.Text.Numeral

/-! Requests: what a command line asks for. -/
namespace Asm6502.CommandLine

inductive Request where
  /-- Builds a demo; it is printed if no file is named. -/
  | demo (demo : Demo) (output : Option String) (format : Option OutputFormat)
  /-- Tokenizes the BASIC listing in a file. -/
  | basic (input : String) (origin : UInt16) (output : Option String) (aligned : Bool)
deriving DecidableEq

/-- The answer to a command line. -/
inductive Invocation where
  | run (request : Request)
  | version (program : String)
  | help
  | usage (error : UsageError)
deriving DecidableEq

def programName : String := "c64asm"

def programVersion : String := "0.1.0"

/-! ### Log levels -/

/-- The names of the log levels, from the least to the most talkative. -/
def logLevels : List String := ["error", "warn", "info", "debug", "trace"]

/-- A log level is a name in any letter case, or its number from one on. -/
def isLogLevel (s : String) : Bool :=
  match Text.readNumeral 10 0xffffffffffffffff s.toList with
  | .ok n => 1 ≤ n && n ≤ logLevels.length
  | .error _ => logLevels.any fun level => level.toList == s.toList.map Char.toLower

/-! ### Commands -/

/-- The options that every command takes. -/
def commonSwitches : List Switch :=
  [⟨"trace", none, false⟩, ⟨"log-level", none, true⟩, ⟨"version", some 'V', false⟩,
    ⟨"help", some 'h', false⟩]

def accepts (name value : String) : Bool :=
  match name with
  | "log-level" => isLogLevel value
  | "format" => (OutputFormat.ofName? value).isSome
  | "origin" => (Word.read value).isOk
  | "demo" => (Demo.ofName? value).isSome
  | "command" => value ∈ ["demo", "d", "basic", "b", "help"]
  | _ => !value.isEmpty

def commandGrammar : Grammar := ⟨commonSwitches, ["command"], accepts⟩

def demoGrammar : Grammar :=
  ⟨[⟨"output", some 'o', true⟩, ⟨"format", some 'f', true⟩] ++ commonSwitches, ["demo"], accepts⟩

def basicGrammar : Grammar :=
  ⟨[⟨"origin", none, true⟩, ⟨"output", some 'o', true⟩, ⟨"no-align", none, false⟩]
    ++ commonSwitches, ["input"], accepts⟩

/-- The origin of a BASIC program if none is given. -/
def defaultOrigin : String := "0x0801"

def demoRequest (found : Parsed) : Except Stop Request :=
  match found.words with
  | [name] =>
    match Demo.ofName? name with
    | some d =>
      .ok (.demo d (found.settings.lookup "output")
        ((found.settings.lookup "format").bind OutputFormat.ofName?))
    | none => Grammar.usage (.invalidValue "demo" name)
  | _ => Grammar.usage (.missingArgument "demo")

def basicRequest (found : Parsed) : Except Stop Request :=
  match found.words with
  | [input] =>
    let origin := (found.settings.lookup "origin").getD defaultOrigin
    match Word.read origin with
    | .ok address =>
      .ok (.basic input address (found.settings.lookup "output")
        (!found.switches.contains "no-align"))
    | .error _ => Grammar.usage (.invalidValue "origin" origin)
  | _ => Grammar.usage (.missingArgument "input")

/-- What follows from reading the words of a command, whose program name is given. -/
def Invocation.ofResult (program : String) : Except Stop Request → Invocation
  | .ok request => .run request
  | .error .version => .version program
  | .error .help => .help
  | .error (.usage e) => .usage e

/-- Reads the words of a command with its grammar. -/
def readCommand (g : Grammar) (request : Parsed → Except Stop Request) (words : List String) :
    Except Stop Request := do
  let found ← g.parse (scan g.switches false words).1
  request found

/-- Sets aside a value that is a word of its own right before the command. It is looked at after
the words of the command, which may ask for the version and so end the reading first. -/
def setAside (tokens : List Token) : List Token × List Token :=
  match tokens.reverse with
  | .word command :: .setting name value false :: before =>
    (before.reverse ++ [.word command], [.setting name value false])
  | _ => (tokens, [])

/-- Reads a command line. -/
def Invocation.ofArguments (arguments : List String) : Invocation :=
  let (tokens, words) := scan commandGrammar.switches true arguments
  let (tokens, aside) := setAside tokens
  match commandGrammar.parse tokens with
  | .error stop => ofResult programName (.error stop)
  | .ok found =>
    match found.words with
    | ["demo"] | ["d"] =>
      ofResult (programName ++ "-demo")
        (readCommand demoGrammar demoRequest words <* aside.foldlM commandGrammar.step found)
    | ["basic"] | ["b"] =>
      ofResult (programName ++ "-basic")
        (readCommand basicGrammar basicRequest words <* aside.foldlM commandGrammar.step found)
    | _ =>
      match words with
      | [] => .help
      | [word] => if accepts "command" word then .help else .usage (.unknownArgument word)
      | _ :: word :: _ => .usage (.unknownArgument word)

end Asm6502.CommandLine
