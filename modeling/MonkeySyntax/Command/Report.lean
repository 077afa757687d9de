import MonkeySyntax.Command.Help
import MonkeySyntax.Session
import MonkeySyntax.Tree.Canonical
import MonkeySyntax.Tree.Datum

/-!
# What the command reports

The command reads one source, a file or standard input, and answers a request about it by a `Report`:
an exit status and two texts. Everything here is a function of the request and the bytes read, so the
program around it only has to fetch the bytes and print the report.

* Status 0: the answer is on standard output.
* Status 1: the source cannot be read, is too large or has parse errors. Standard error has a line for
  each parse error and a last line that starts with `Error: `.
* Status 2: the arguments make no sense.
-/

namespace MonkeySyntax.Command

/-! ## Sources -/

/-- Where a source comes from. -/
inductive Origin where
  | standardInput
  | file (path : String)
  deriving DecidableEq

/-- The origin a file operand stands for: `-` is standard input. -/
def Origin.ofOperand (operand : String) : Origin :=
  if operand = "-" then standardInput else file operand

/-- Why the bytes of a source are not to be had. -/
inductive ReadFailure where
  | notFound
  | isDirectory
  | notDirectory
  | invalidUtf8
  /-- Any other failure, with its code and the system's words for it. -/
  | system (code : Nat) (words : String)
  deriving DecidableEq

/-- A system failure in words, with its code. -/
def systemMessage (code : Nat) (words : String) : String :=
  words ++ " (os error " ++ toString code ++ ")"

/-- The failure in words. -/
def ReadFailure.message : ReadFailure → String
  | notFound => systemMessage 2 "No such file or directory"
  | isDirectory => systemMessage 21 "Is a directory"
  | notDirectory => systemMessage 20 "Not a directory"
  | invalidUtf8 => "stream did not contain valid UTF-8"
  | system code words => systemMessage code words

/-- The failure that a system code stands for; `words` describe a code without a failure of its own. -/
def ReadFailure.ofCode (code : Nat) (words : String) : ReadFailure :=
  match code with
  | 2 => notFound
  | 20 => notDirectory
  | 21 => isDirectory
  | _ => system code words

/-- The largest size of a source in bytes. -/
def maxSourceSize : Nat := 1000000

/-- Why a request on a source has no answer. -/
inductive Failure where
  /-- The source cannot be read as text. -/
  | unreadable (origin : Origin) (cause : ReadFailure)
  /-- The source has too many bytes. -/
  | tooLarge (size : Nat)
  /-- The source has parse errors. -/
  | rejected (cause : ParseFailure)
  deriving DecidableEq

/-- The last line about a failure. -/
def Failure.message : Failure → String
  | unreadable .standardInput cause => "failed to read stdin: " ++ cause.message
  | unreadable (.file path) cause =>
    "failed to read source file '" ++ path ++ "': " ++ cause.message
  | tooLarge size => "source file exceeds 1MB limit (" ++ toString size ++ " bytes)"
  | rejected cause => toString cause.errors.length ++ " parse error(s) in " ++ cause.file

/-- The lines before the last one: one for each parse error. -/
def Failure.details : Failure → List String
  | rejected cause => cause.errors.map fun e => cause.file ++ ": " ++ e.message
  | _ => []

/-- The text of a source: its bytes must be UTF-8, and not too many. -/
def sourceText (origin : Origin) (bytes : Except ReadFailure ByteArray) : Except Failure String := do
  match bytes with
  | .error cause => .error (.unreadable origin cause)
  | .ok bytes =>
    match String.fromUTF8? bytes with
    | none => .error (.unreadable origin .invalidUtf8)
    | some text => if maxSourceSize < bytes.size then .error (.tooLarge bytes.size) else .ok text

/-! ## Answers -/

/-- The line that lists a token: its label and its literal; the end of the input has only a label. -/
def tokenLine (t : Token) : String :=
  if t.kind = .eof then t.kind.label ++ "\n" else t.kind.label ++ " " ++ t.literal ++ "\n"

/-- The tokens of a text, one a line. -/
def tokenListing (text : String) : String :=
  String.join ((tokenize text).map tokenLine)

/-- A program in one of the formats, closed by a line break. -/
def Format.print (format : Format) (p : Program) : String :=
  match format with
  | canonical => p.canonical ++ "\n"
  | pretty => p.datum.indented ++ "\n"
  | json => p.datum.json.pretty ++ "\n"

/-- The program in a text that goes by the name of `file`, printed. -/
def programListing (file : String) (format : Format) (text : String) : Except Failure String :=
  match parseFile file text with
  | .ok p => .ok (format.print p)
  | .error cause => .error (.rejected cause)

/-! ## Reports -/

/-- How a run ends: its exit status and what it writes. -/
structure Report where
  status : Nat
  output : String
  errors : String
  deriving DecidableEq

namespace Report

/-- A run that ends well. -/
def success (output : String) : Report := ⟨0, output, ""⟩

/-- A run that fails. -/
def failure (f : Failure) : Report :=
  ⟨1, "", String.join ((f.details ++ ["Error: " ++ f.message]).map (· ++ "\n"))⟩

/-- A run whose arguments make no sense. -/
def misuse : Report :=
  ⟨2, "", "error: invalid arguments\n\nFor more information, try '--help'.\n"⟩

/-- The report on an answer or the failure to find one. -/
def ofExcept : Except Failure String → Report
  | .ok output => success output
  | .error f => failure f

end Report

namespace Request

/-- The source that has to be read to answer a request. -/
def origin? : Request → Option Origin
  | tokens file => some (.ofOperand file)
  | parse file _ => some (.ofOperand file)
  | help _ => none
  | misuse => none

/-- The report on a request, where `read` gives the bytes of any source. -/
def report (read : Origin → Except ReadFailure ByteArray) : Request → Report
  | tokens file =>
    let origin := Origin.ofOperand file
    Report.ofExcept do return tokenListing (← sourceText origin (read origin))
  | parse file format =>
    let origin := Origin.ofOperand file
    Report.ofExcept do programListing file format (← sourceText origin (read origin))
  | help page => Report.success page.text
  | misuse => Report.misuse

end Request

end MonkeySyntax.Command
