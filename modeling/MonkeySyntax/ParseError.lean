import MonkeySyntax.Hex
import MonkeySyntax.Token

/-!
# Parse errors

The five causes for which a statement is rejected, and how they are worded. A parse collects a list
of them; `ParseError.summary` says in one line what is in such a list.
-/

namespace MonkeySyntax

/-- Why a statement was rejected. -/
inductive ParseError where
  /-- A rule required a certain kind and found another token. -/
  | unexpectedToken (expected : Kind) (found : Token)
  /-- No expression can start with this token. -/
  | noOperand (found : Token)
  /-- The digits denote a number above the largest integer. -/
  | integerOutOfRange (digits : String)
  /-- A byte that is no part of any token. -/
  | illegalByte (byte : UInt8)
  /-- Expressions are nested more deeply than the limit allows. -/
  | nestingTooDeep (limit : Nat)
  deriving DecidableEq

namespace ParseError

/-- How an illegal byte is named: visible ASCII characters as themselves, other bytes by their code
in two hexadecimal digits. -/
def byteMessage (byte : UInt8) : String :=
  if 0x21 ≤ byte ∧ byte ≤ 0x7e then
    "illegal character '" ++ String.singleton (Char.ofUInt8 byte) ++ "'"
  else
    "illegal byte 0x" ++ Hex.padded 2 byte.toNat

/-- The error in words. -/
def message : ParseError → String
  | unexpectedToken expected found => "expected " ++ expected.label ++ ", found " ++ found.describe
  | noOperand found => "no prefix parse rule for " ++ found.describe
  | integerOutOfRange digits => "integer literal out of range: " ++ digits
  | illegalByte byte => "Lexer error: " ++ byteMessage byte
  | nestingTooDeep limit => "expression nesting depth exceeds limit of " ++ toString limit

/-- The error underlying this one, in words: only an illegal byte has one. -/
def cause? : ParseError → Option String
  | illegalByte byte => some (byteMessage byte)
  | _ => none

/-- A list of errors in one line: the first message and how many more there are. -/
def summary : List ParseError → String
  | [] => "no parse errors"
  | [e] => e.message
  | e :: rest => e.message ++ " (and " ++ toString rest.length ++ " more)"

/-- The error of a rule that required `expected`: an illegal token is reported by its byte rather than
by what was hoped for. -/
def unexpected (expected : Kind) (found : Token) : ParseError :=
  if found.kind = .illegal then illegalByte found.byte else unexpectedToken expected found

end ParseError

end MonkeySyntax
