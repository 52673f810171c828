/-! Files by path, as a command sees them from its working directory.

A path is followed part by part. Every part but the last has to lead to a directory, a name has at
most 255 bytes and a path at most 4095. Of what lies outside of the working directory only the
directories above it are known. -/
namespace Asm6502.CommandLine

/-- Why a file cannot be read or written. -/
inductive FileError where
  | notFound
  | notADirectory
  | isADirectory
  | nameTooLong
  /-- Any other failure, as the system describes it. -/
  | other (description : String)
deriving DecidableEq, Repr

def FileError.message : FileError → String
  | notFound => "No such file or directory (os error 2)"
  | notADirectory => "Not a directory (os error 20)"
  | isADirectory => "Is a directory (os error 21)"
  | nameTooLong => "File name too long (os error 36)"
  | other description => description

/-- The failure with this number of the operating system, which has words of its own for it. -/
def FileError.ofNumber (n : Nat) (description : String) : FileError :=
  match n with
  | 2 => notFound
  | 20 => notADirectory
  | 21 => isADirectory
  | 36 => nameTooLong
  | _ => other (description ++ " (os error " ++ toString n ++ ")")

/-! ### Paths -/

/-- The parts of a path between its slashes. -/
def splitPath : List Char → List (List Char)
  | [] => [[]]
  | c :: rest =>
    if c = '/' then [] :: splitPath rest
    else
      match splitPath rest with
      | [] => [[c]]
      | part :: parts => (c :: part) :: parts

/-- The names on the way to a part of a path, after those on the way to the part before it: a dot
stays there, and two dots go back. -/
def enter (reached : List String) (part : List Char) : List String :=
  match part with
  | [] | ['.'] => reached
  | ['.', '.'] => reached.dropLast
  | _ => reached ++ [String.ofList part]

/-- The names on the way from the root to the working directory. Its own name is empty, so that no
path leads to it by name. -/
def workingDirectory : List String := [""]

/-- Where a path starts: at the root if a slash comes first. -/
def startOf (path : String) : List String :=
  if path.toList.head? = some '/' then [] else workingDirectory

/-- The names on the way from the root to a file. -/
def components (path : String) : List String :=
  (splitPath path.toList).foldl enter (startOf path)

/-- The most bytes in a name. -/
def maxNameSize : Nat := 255

/-- The most bytes in a path. -/
def maxPathSize : Nat := 4095

/-- A path with the extension of its last part replaced. A dot at the start of that part does not
count. If no more than a dot comes before the extension, what remains is two dots, the directory
above, which takes no extension. -/
def withExtension (path extension : String) : String :=
  let name := path.toList.reverse.takeWhile (· != '/')
  let directory := (path.toList.reverse.dropWhile (· != '/')).reverse
  let replaced :=
    match name.dropWhile (· != '.') with
    | ['.', '.'] => ['.', '.']
    | _ :: c :: stem => (c :: stem).reverse ++ '.' :: extension.toList
    | _ => name.reverse ++ '.' :: extension.toList
  String.ofList (directory ++ replaced)

/-! ### Files -/

/-- Files by the names on the way to them. A directory is there if it holds a file. -/
structure Files where
  entries : List (List String × List UInt8)

namespace Files

/-- The files of the working directory. -/
def ofList (files : List (String × List UInt8)) : Files :=
  ⟨files.map fun (path, bytes) => (components path, bytes)⟩

def find? (files : Files) (names : List String) : Option (List UInt8) :=
  files.entries.lookup names

def isDirectory (files : Files) (names : List String) : Bool :=
  names.isPrefixOf workingDirectory
    || files.entries.any fun (p, _) => names.isPrefixOf p && names.length < p.length

/-- Goes on to a part of a path from what was reached by the parts before it. -/
def step (files : Files) (reached : List String) (part : List Char) :
    Except FileError (List String) :=
  if !files.isDirectory reached then
    .error (if (files.find? reached).isSome then .notADirectory else .notFound)
  else if (String.ofList part).utf8ByteSize > maxNameSize then .error .nameTooLong
  else .ok (enter reached part)

/-- Follows parts of a path from where the path starts. -/
def follow (files : Files) (path : String) (parts : List (List Char)) :
    Except FileError (List String) :=
  if path.utf8ByteSize > maxPathSize then .error .nameTooLong
  else parts.foldlM files.step (startOf path)

/-- The bytes of a file, or why it cannot be read. -/
def read (files : Files) (path : String) : Except FileError (List UInt8) := do
  let names ← files.follow path (splitPath path.toList)
  match files.find? names with
  | some bytes => return bytes
  | none => throw (if files.isDirectory names then .isADirectory else .notFound)

/-- The files after writing one, or why it cannot be written. The file may be new, but not the
directory that holds it. A path with a slash at its end names a directory. -/
def write (files : Files) (path : String) (bytes : List UInt8) : Except FileError Files := do
  let parts := (splitPath path.toList).reverse.dropWhile List.isEmpty
  let directory ← files.follow path ((parts.drop 1).reverse ++ [['.']])
  if path.toList.getLast? = some '/' then throw .isADirectory
  let names ← files.step directory (parts.headD [])
  if files.isDirectory names then throw .isADirectory
  return ⟨(names, bytes) :: files.entries.filter fun e => e.1 ≠ names⟩

end Files

end Asm6502.CommandLine
