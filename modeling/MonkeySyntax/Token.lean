/-!
# Tokens

The alphabet between source text and syntax trees. A token pairs a **kind** with the **literal**,
the text it was read from.

* `Kind` — the closed list of kinds, each with a one-word `name` (used in dumps) and a `label`
  (used in messages; it differs from the name where the name is made of two words).
* `keywords`, `Kind.ofWord` — the reserved words, and the kind of any word.
* `Token` — kind and literal; `Token.eof` marks the end of the input, `Token.describe` is the form
  that error messages use.
-/

namespace MonkeySyntax

/-- What sort of token this is. `illegal` is any byte that no lexical rule accepts and `eof` the end
of the input. -/
inductive Kind where
  | illegal
  | eof
  | identifier
  | assignment
  | plus
  | minus
  | bang
  | asterisk
  | slash
  | lessThan
  | greaterThan
  | equals
  | notEquals
  | comma
  | semicolon
  | openParen
  | closeParen
  | openBrace
  | closeBrace
  | integer
  | fnWord
  | letWord
  | trueWord
  | falseWord
  | ifWord
  | elseWord
  | returnWord
  deriving DecidableEq

namespace Kind

/-- Every kind, in declaration order. -/
def all : List Kind :=
  [illegal, eof, identifier, assignment, plus, minus, bang, asterisk, slash, lessThan, greaterThan,
    equals, notEquals, comma, semicolon, openParen, closeParen, openBrace, closeBrace, integer,
    fnWord, letWord, trueWord, falseWord, ifWord, elseWord, returnWord]

theorem mem_all (k : Kind) : k ∈ all := by
  cases k <;> decide

/-- The kind's name as one word. -/
def name : Kind → String
  | illegal => "Illegal"
  | eof => "Eof"
  | identifier => "Identifier"
  | assignment => "Assignment"
  | plus => "Plus"
  | minus => "Minus"
  | bang => "Bang"
  | asterisk => "Asterisk"
  | slash => "Slash"
  | lessThan => "LessThan"
  | greaterThan => "GreaterThan"
  | equals => "Equals"
  | notEquals => "NotEquals"
  | comma => "Comma"
  | semicolon => "Semicolon"
  | openParen => "OpenParen"
  | closeParen => "CloseParen"
  | openBrace => "OpenBrace"
  | closeBrace => "CloseBrace"
  | integer => "Integer"
  | fnWord => "Function"
  | letWord => "Let"
  | trueWord => "True"
  | falseWord => "False"
  | ifWord => "If"
  | elseWord => "Else"
  | returnWord => "Return"

/-- The kind as messages and token listings show it: its name, with a space between two words. -/
def label : Kind → String
  | lessThan => "Less Than"
  | greaterThan => "Greater Than"
  | notEquals => "Not Equals"
  | openParen => "Open Paren"
  | closeParen => "Close Paren"
  | openBrace => "Open Brace"
  | closeBrace => "Close Brace"
  | k => k.name

/-- The kind with a given name, if there is one. -/
def ofName? (s : String) : Option Kind :=
  all.find? (·.name = s)

theorem ofName?_name (k : Kind) : ofName? k.name = some k := by
  cases k <;> decide

end Kind

/-- The reserved words with their kinds, in the order in which they are looked up. -/
def keywords : List (String × Kind) :=
  [("fn", .fnWord), ("let", .letWord), ("true", .trueWord), ("false", .falseWord), ("if", .ifWord),
    ("else", .elseWord), ("return", .returnWord)]

/-- The kind of a word: its keyword kind if it is reserved, else `identifier`. -/
def Kind.ofWord (word : String) : Kind :=
  (keywords.lookup word).getD .identifier

/-- A kind together with the text the token was read from. -/
structure Token where
  kind : Kind
  literal : String
  deriving DecidableEq

namespace Token

/-- The end of the input. Its literal is one NUL character. -/
def eof : Token := ⟨.eof, "\x00"⟩

/-- The token as messages show it: its label and the quoted literal, or `end of input`. -/
def describe (t : Token) : String :=
  if t.kind = .eof then "end of input" else t.kind.label ++ " `" ++ t.literal ++ "`"

/-- The byte an `illegal` token stands for: the code of its character. -/
def byte (t : Token) : UInt8 :=
  match t.literal.toList with
  | [] => 0
  | c :: _ => c.toNat.toUInt8

end Token

end MonkeySyntax
