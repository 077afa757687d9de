import MonkeySyntax.Command.Report

/-!
# The command

Fetches the source that the arguments ask for, and prints the report. Nothing is decided here.
-/

namespace MonkeySyntax.Command

/-- The code and the words of a failed system call; codes may be reported with a negative sign. -/
def systemFailure (code : UInt32) (words : String) : ReadFailure :=
  .ofCode code.toInt32.toInt.natAbs words.capitalize

/-- The failure to read a source, as the system reports it. -/
def ReadFailure.ofError : IO.Error → ReadFailure
  | .alreadyExists _ code words => systemFailure code words
  | .otherError code words => systemFailure code words
  | .resourceBusy code words => systemFailure code words
  | .resourceVanished code words => systemFailure code words
  | .unsupportedOperation code words => systemFailure code words
  | .hardwareFault code words => systemFailure code words
  | .unsatisfiedConstraints code words => systemFailure code words
  | .illegalOperation code words => systemFailure code words
  | .protocolError code words => systemFailure code words
  | .timeExpired code words => systemFailure code words
  | .interrupted _ code words => systemFailure code words
  | .noFileOrDirectory _ code words => systemFailure code words
  | .invalidArgument _ code words => systemFailure code words
  | .permissionDenied _ code words => systemFailure code words
  | .resourceExhausted _ code words => systemFailure code words
  | .inappropriateType _ code words => systemFailure code words
  | .noSuchThing _ code words => systemFailure code words
  | .unexpectedEof => .system 0 "Unexpected end of file"
  | .userError words => .system 0 words

/-- Fetch the bytes of a source. -/
def fetch (origin : Origin) : IO (Except ReadFailure ByteArray) := do
  try
    match origin with
    | .standardInput => return .ok (← (← IO.getStdin).readBinToEnd)
    | .file path => return .ok (← IO.FS.readBinFile path)
  catch e =>
    return .error (.ofError e)

end MonkeySyntax.Command

open MonkeySyntax.Command in
/-- Answer the request that the arguments make. -/
def main (args : List String) : IO UInt32 := do
  let request := Request.ofArguments args
  let bytes ←
    match request.origin? with
    | some origin => fetch origin
    | none => pure (.ok ByteArray.empty)
  let report := request.report fun _ => bytes
  (← IO.getStdout).putStr report.output
  (← IO.getStderr).putStr report.errors
  return report.status.toUInt32
