import MonkeySyntax.Command.Report

/-!
# A directory held in memory

The files and directories a run of the command can see, as a value: enough to answer every path that a
file operand can name, hence to run the command as a function.

Paths are read as usual: `/` separates steps, `.` and empty steps stay, `..` goes up, and a step below a
file fails. Above the directory there is nothing but directories without names.
-/

namespace MonkeySyntax.Command

/-- Named files and directories. Names may contain `/`; what stands before it is a directory. -/
structure Directory where
  files : List (String × ByteArray)
  directories : List String

namespace Directory

/-- What stands at the place named by the steps taken from the directory: a file with its bytes, or
another directory. -/
inductive Entry where
  | file (bytes : ByteArray)
  | directory

/-- Look up the place named by the steps. -/
def entry? (d : Directory) (steps : List String) : Option Entry :=
  let name := "/".intercalate steps
  let below := (name ++ "/").toList
  match d.files.lookup name with
  | some bytes => some (.file bytes)
  | none =>
    if d.directories.any (fun n => n = name || below.isPrefixOf n.toList)
        || d.files.any (fun f => below.isPrefixOf f.1.toList) then
      some .directory
    else
      none

/-- Follow the steps of a path from a place inside the directory, or from a place above it. -/
def follow (d : Directory) : Option (List String) → List String → Except ReadFailure ByteArray
  | _, [] => .error .isDirectory
  | place, "" :: path => d.follow place path
  | place, "." :: path => d.follow place path
  | none, ".." :: path => d.follow none path
  | some [], ".." :: path => d.follow none path
  | some steps, ".." :: path => d.follow (some steps.dropLast) path
  | none, _ :: _ => .error .notFound
  | some steps, step :: path =>
    let steps := steps ++ [step]
    match d.entry? steps with
    | none => .error .notFound
    | some (.file bytes) => if path = [] then .ok bytes else .error .notDirectory
    | some .directory => d.follow (some steps) path

/-- The bytes of the file that a path names. A path that starts with `/` leads out of the directory. -/
def read (d : Directory) (path : String) : Except ReadFailure ByteArray :=
  if path = "" then .error .notFound
  else d.follow (if path.front = '/' then none else some []) (path.splitOn "/")

end Directory

/-- Run the command on a directory held in memory, with the given bytes on standard input. -/
def run (directory : Directory) (standardInput : ByteArray) (args : List String) : Report :=
  (Request.ofArguments args).report fun
    | .standardInput => .ok standardInput
    | .file path => directory.read path

end MonkeySyntax.Command
