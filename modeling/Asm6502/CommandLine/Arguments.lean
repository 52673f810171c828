/-! The words of a command line: options, their values, and positional arguments.

An option is written by its long name behind two dashes or by its letter behind one. Its value is
the next word, or what is attached to the option, behind an equals sign if one is there. Letters
may be written together. Two dashes alone end the options. -/
namespace Asm6502.CommandLine

/-- Why a command line is not understood. -/
inductive UsageError where
  | unknownArgument (word : String)
  | missingValue (option : String)
  | unexpectedValue (option : String)
  | invalidValue (name value : String)
  | repeated (option : String)
  | missingArgument (name : String)
deriving DecidableEq, Repr

def UsageError.message : UsageError → String
  | unknownArgument word => "unexpected argument '" ++ word ++ "' found"
  | missingValue option => "a value is required for '--" ++ option ++ "' but none was supplied"
  | unexpectedValue option => "unexpected value for '--" ++ option ++ "' found"
  | invalidValue name value => "invalid value '" ++ value ++ "' for '" ++ name ++ "'"
  | repeated option => "the argument '--" ++ option ++ "' cannot be used multiple times"
  | missingArgument name => "the argument '" ++ name ++ "' was not provided"

/-- An option that a command knows. -/
structure Switch where
  long : String
  short : Option Char
  takesValue : Bool

/-- A part of a command line that means something by itself. -/
inductive Token where
  | switch (name : String)
  /-- An option with its value, which is attached to it or is a word of its own. -/
  | setting (name value : String) (attached : Bool)
  | word (value : String)
  | wrong (error : UsageError)
deriving DecidableEq, Repr

/-- Does a word start an option? A dash alone does not. -/
def isOption (s : String) : Bool :=
  match s.toList with
  | '-' :: _ :: _ => true
  | _ => false

/-- The long option in a word without its dashes. A value may be attached to it. -/
def longOption (switches : List Switch) (cs : List Char) (next : Option String) :
    Token × Bool :=
  let name := String.ofList (cs.takeWhile (· != '='))
  match switches.find? (·.long = name), cs.dropWhile (· != '='), next with
  | none, _, _ => (.wrong (.unknownArgument ("--" ++ String.ofList cs)), false)
  | some s, _ :: value, _ =>
    if s.takesValue then (.setting s.long (String.ofList value) true, false)
    else (.wrong (.unexpectedValue s.long), false)
  | some s, [], next =>
    if !s.takesValue then (.switch s.long, false)
    else
      match next with
      | some value =>
        if isOption value then (.wrong (.missingValue s.long), false)
        else (.setting s.long value false, true)
      | none => (.wrong (.missingValue s.long), false)

/-- The options in a word of letters without its dash, and whether the last of them takes the next
word as its value. -/
def shortOptions (switches : List Switch) (next : Option String) :
    List Char → List Token × Bool
  | [] => ([], false)
  | c :: rest =>
    match switches.find? (·.short = some c) with
    | none => ([.wrong (.unknownArgument (String.ofList ['-', c]))], false)
    | some s =>
      if !s.takesValue then
        let (tokens, takesNext) := shortOptions switches next rest
        (.switch s.long :: tokens, takesNext)
      else
        match rest, next with
        | '=' :: value, _ => ([.setting s.long (String.ofList value) true], false)
        | [], some value =>
          if isOption value then ([.wrong (.missingValue s.long)], false)
          else ([.setting s.long value false], true)
        | [], none => ([.wrong (.missingValue s.long)], false)
        | value, _ => ([.setting s.long (String.ofList value) true], false)

/-- The tokens of a word that starts an option, and whether it takes the next word as value. -/
def options (switches : List Switch) (word : String) (next : Option String) :
    List Token × Bool :=
  match word.toList with
  | '-' :: '-' :: cs =>
    let (token, takesNext) := longOption switches cs next
    ([token], takesNext)
  | '-' :: cs => shortOptions switches next cs
  | _ => ([], false)

/-- The tokens of a command line. With `stop` they end with the first word that is no option or
value, and the words after it are returned as they are. -/
def scan (switches : List Switch) (stop : Bool) : List String → List Token × List String
  | [] => ([], [])
  | word :: rest =>
    if word = "--" then
      if stop then ([.wrong (.unknownArgument word)], []) else (rest.map .word, [])
    else if isOption word then
      match options switches word rest.head?, rest with
      | (tokens, true), _ :: rest =>
        let (more, left) := scan switches stop rest
        (tokens ++ more, left)
      | (tokens, _), rest =>
        let (more, left) := scan switches stop rest
        (tokens ++ more, left)
    else if stop then ([.word word], rest)
    else
      let (more, left) := scan switches stop rest
      (.word word :: more, left)

/-! ### What a command accepts -/

/-- The options of a command and its positional arguments, all of which are needed. -/
structure Grammar where
  switches : List Switch
  positionals : List String
  /-- May the option or argument of this name have this value? -/
  accepts : String → String → Bool

/-- What was found on a command line. -/
structure Parsed where
  switches : List String
  settings : List (String × String)
  words : List String

/-- Why reading a command line ends early. -/
inductive Stop where
  | version
  | help
  | usage (error : UsageError)
deriving DecidableEq, Repr

namespace Grammar

def usage {α : Type} (e : UsageError) : Except Stop α := .error (.usage e)

/-- Takes one token into account. -/
def step (g : Grammar) (found : Parsed) : Token → Except Stop Parsed
  | .switch "version" => .error .version
  | .switch "help" => .error .help
  | .switch name =>
    if name ∈ found.switches then usage (.repeated name)
    else .ok { found with switches := found.switches ++ [name] }
  | .setting name value _ =>
    if (found.settings.lookup name).isSome then usage (.repeated name)
    else if g.accepts name value then
      .ok { found with settings := found.settings ++ [(name, value)] }
    else usage (.invalidValue name value)
  | .word value =>
    match g.positionals[found.words.length]? with
    | some name =>
      if g.accepts name value then .ok { found with words := found.words ++ [value] }
      else usage (.invalidValue name value)
    | none => usage (.unknownArgument value)
  | .wrong e => usage e

/-- Takes all tokens into account, from left to right, and asks for what is missing. -/
def parse (g : Grammar) (tokens : List Token) : Except Stop Parsed := do
  let found ← tokens.foldlM g.step ⟨[], [], []⟩
  match g.positionals[found.words.length]? with
  | some name => usage (.missingArgument name)
  | none => return found

end Grammar

end Asm6502.CommandLine
