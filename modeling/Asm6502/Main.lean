import Asm6502.CommandLine.Job

/-! The command line program: jobs run on the files of the working directory. -/
namespace Asm6502.CommandLine

/-- What an error of the operating system means for a file. Its number may come negated. -/
def FileError.ofFailure : IO.Error → FileError
  | .noFileOrDirectory _ code description
  | .inappropriateType _ code description
  | .invalidArgument _ code description
  | .permissionDenied _ code description
  | .resourceExhausted _ code description
  | .alreadyExists _ code description
  | .noSuchThing _ code description
  | .otherError code description
  | .resourceBusy code description
  | .unsupportedOperation code description
  | .illegalOperation code description
  | .hardwareFault code description =>
    .ofNumber code.toInt32.toInt.natAbs description
  | e => .other (toString e)

/-- Runs a job and returns its exit status. -/
def Job.perform : Job → IO UInt32
  | finish output => do
    let stdout ← IO.getStdout
    stdout.write ⟨output.toArray⟩
    stdout.flush
    return 0
  | fail message cause => do
    IO.eprint (report message cause)
    return 1
  | refuse e => do
    IO.eprint (reportUsage e)
    return 2
  | read path next => do
    let result : Except FileError (List UInt8) ←
      try
        let bytes ← IO.FS.readBinFile path
        pure (.ok bytes.toList)
      catch e => pure (.error (.ofFailure e))
    (next result).perform
  | write path bytes next => do
    let result : Except FileError Unit ←
      try
        IO.FS.writeBinFile path ⟨bytes.toArray⟩
        pure (.ok ())
      catch e => pure (.error (.ofFailure e))
    (next result).perform

end Asm6502.CommandLine

def main (arguments : List String) : IO UInt32 :=
  (Asm6502.CommandLine.Job.ofArguments arguments).perform
