import Asm6502.CommandLine.Files
import Asm6502.CommandLine.Request

/-! Jobs: what is done for a request, step by step.

A job says which files it reads and writes and how it goes on with the result, so that the same
job runs on files in memory and on those of a real directory. -/
namespace Asm6502.CommandLine

inductive Job where
  /-- Prints something and ends well. -/
  | finish (output : List UInt8)
  /-- Ends with a message and what caused it. -/
  | fail (message : String) (cause : Option String)
  /-- Refuses the command line. -/
  | refuse (error : UsageError)
  | read (path : String) (next : Except FileError (List UInt8) → Job)
  | write (path : String) (bytes : List UInt8) (next : Except FileError Unit → Job)

namespace Job

/-- Writes a file as the last step. -/
def writeLast (path : String) (bytes : List UInt8) : Job :=
  .write path bytes fun
    | .ok () => .finish []
    | .error e => .fail ("Failed to write " ++ path) (some e.message)

/-- The text that bytes encode. -/
def decodeText (bytes : List UInt8) : Option String :=
  String.fromUTF8? ⟨bytes.toArray⟩

/-- Tokenizes a listing and writes it as a program file. -/
def convert (listing input : String) (origin : UInt16) (output : Option String)
    (aligned : Bool) : Job :=
  match BasicV2.Tokenized.ofListing listing origin.toNat aligned with
  | .error e => .fail e.message none
  | .ok t =>
    match t.code.link origin.toNat with
    | .error e => .fail e.message none
    | .ok p => writeLast (output.getD (withExtension input "prg")) p.image

def ofRequest : Request → Job
  | .demo d output format =>
    match d.assemble with
    | .error e => .fail ("Failed to build " ++ d.name) (some e.message)
    | .ok p =>
      match output with
      | some path => writeLast path (p.render (format.getD .prg))
      | none => .finish (p.render (format.getD .dump))
  | .basic input origin output aligned =>
    .read input fun
      | .error e => .fail ("Failed to read " ++ input) (some e.message)
      | .ok bytes =>
        match decodeText bytes with
        | some listing => convert listing input origin output aligned
        | none =>
          .fail ("Failed to read " ++ input) (some "stream did not contain valid UTF-8")

/-- The text that explains the command line. -/
def helpText : List String :=
  ["Usage: " ++ programName ++ " [OPTIONS] <COMMAND>",
    "",
    "Commands:",
    "  demo <NAME> [-o FILE] [-f prg|src|dump]",
    "  basic <FILE> [--origin ADDRESS] [-o FILE] [--no-align]",
    "",
    "Options:",
    "  --trace, --log-level <LEVEL>, -h, --help, -V, --version"]

def ofInvocation : Invocation → Job
  | .run request => ofRequest request
  | .version program => .finish (encodeLines [program ++ " " ++ programVersion])
  | .help => .finish (encodeLines helpText)
  | .usage e => .refuse e

/-- The job that a command line asks for. -/
def ofArguments (arguments : List String) : Job := ofInvocation (.ofArguments arguments)

end Job

/-- How a job ended. -/
structure Ending where
  status : Nat
  output : List UInt8
  errors : String
  files : Files

/-- A failure as reported to the user. -/
def report (message : String) (cause : Option String) : String :=
  match cause with
  | some cause => "Error: " ++ message ++ "\n\nCaused by:\n    " ++ cause ++ "\n"
  | none => "Error: " ++ message ++ "\n"

/-- A refused command line as reported to the user. -/
def reportUsage (e : UsageError) : String := "error: " ++ e.message ++ "\n"

/-- Runs a job on files in memory. -/
def Job.run (files : Files) : Job → Ending
  | finish output => ⟨0, output, "", files⟩
  | fail message cause => ⟨1, [], report message cause, files⟩
  | refuse e => ⟨2, [], reportUsage e, files⟩
  | read path next => (next (files.read path)).run files
  | write path bytes next =>
    match files.write path bytes with
    | .ok files => (next (.ok ())).run files
    | .error e => (next (.error e)).run files

end Asm6502.CommandLine
