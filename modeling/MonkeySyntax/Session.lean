import MonkeySyntax.Lexer
import MonkeySyntax.Parser.Expression

/-!
# Parsing a source

A `Session` holds the tokens that are still to be parsed and the errors recorded so far.
`Session.program` reads a whole program, so a second call finds only the end of the input.
`parse` runs one session over a text and keeps what could be read beside the errors; `parseFile`
refuses a text in which there is any error.
-/

namespace MonkeySyntax

/-- The tokens still to be parsed and the errors recorded so far. -/
structure Session where
  rest : Tokens
  errors : List ParseError

namespace Session

/-- A session at the start of the tokens that are left in a source. -/
def ofSource (src : Source) : Session := ⟨src.tokens, []⟩

/-- A session at the start of a text. -/
def ofString (text : String) : Session := ofSource (Source.ofString text)

end Session

/-- A whole program: statements up to the end of the input. -/
def Parser.program : Parser (Measured (List Stmt)) :=
  block (expression maxOpen) false

/-- Read statements to the end of the input, recording every error. A block never stops with one
(`Parser.total_block`), so the case without a value does not arise. -/
def Session.program (session : Session) : Program × Session :=
  let outcome := Parser.program.run session.rest
  let statements :=
    match outcome.result with
    | .ok block => block.value
    | .error _ => []
  (⟨statements⟩, ⟨outcome.rest, session.errors ++ outcome.recorded⟩)

/-- What could be read of a text, and the errors in it. -/
def parse (text : String) : Program × List ParseError :=
  let (program, session) := (Session.ofString text).program
  (program, session.errors)

/-- The errors for which a named source was refused. -/
structure ParseFailure where
  file : String
  errors : List ParseError
  deriving DecidableEq

namespace ParseFailure

/-- What was being done. -/
def context (failure : ParseFailure) : String := "failed to parse " ++ failure.file

/-- Why it failed, in one line. -/
def summary (failure : ParseFailure) : String := ParseError.summary failure.errors

/-- The failure in words, outermost cause first. -/
def chain (failure : ParseFailure) : List String := [failure.context, failure.summary]

/-- The failure in one line. -/
def message (failure : ParseFailure) : String := ": ".intercalate failure.chain

end ParseFailure

/-- Parse a source that goes by the name of `file`, and refuse it if any error is recorded. -/
def parseFile (file text : String) : Except ParseFailure Program :=
  match parse text with
  | (program, []) => .ok program
  | (_, errors) => .error ⟨file, errors⟩

end MonkeySyntax
