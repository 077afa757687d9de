import MonkeySyntax.Parser.Statement

/-!
# Expressions

Operator precedence by climbing. `expression room min` reads an operand and then every binary operator
that binds more tightly than `min`, each with a right operand that binds more tightly than the operator
itself; so operators of one level associate to the left.

    operand   = ( `-` | `!` ) operand | integer | `true` | `false` | identifier
              | `(` expression `)`
              | identifier `(` ( expression [ `,` ] )* `)`
              | `fn` `(` ( identifier [ `,` ] )* `)` `{` block `}`

The rules are functions of the rule `expr` for the expressions inside them, and `expression` closes the
circle: `room` is how many more expressions may be opened inside one another.
-/

namespace MonkeySyntax

/-! ## Integers -/

/-- The largest integer a literal may denote: the largest signed number of 64 bits. -/
def maxInteger : Nat := 9223372036854775807

/-- Read a further decimal digit behind a number; nothing if it is no digit or the number gets too
large. -/
def appendDigit? (n : Nat) (c : Char) : Option Nat :=
  let value := 10 * n + (c.toNat - '0'.toNat)
  if c.isDigit ∧ value ≤ maxInteger then some value else none

/-- The number that a non-empty string of decimal digits denotes, if it is small enough. -/
def integerValue? (digits : String) : Option Nat :=
  if digits = "" then none else digits.toList.foldlM appendDigit? 0

namespace Parser

variable (expr : Precedence → Rule (Measured Expr))

/-! ## Operands -/

/-- An operator and its operand. -/
def unaryExpression (op : UnaryOp) : Parser (Measured Expr) := do
  let token ← expect op.kind
  let operand ← (expr .unary).toParser
  let height ← above operand.height
  return ⟨.unary token op operand.value, height⟩

/-- An integer literal. One that is too large is left where it is. -/
def integerExpression : Parser (Measured Expr) := do
  let digits ← current
  match integerValue? digits.literal with
  | none => fail (.integerOutOfRange digits.literal)
  | some value =>
    let token ← expect .integer
    return ⟨.int token value, 0⟩

/-- `true` or `false`. -/
def booleanExpression (value : Bool) : Parser (Measured Expr) := do
  let token ← expect (if value then .trueWord else .falseWord)
  return ⟨.bool token value, 0⟩

/-- An expression in parentheses, which leave no trace in the tree. -/
def groupedExpression : Parser (Measured Expr) := do
  let _ ← expect .openParen
  let inner ← (expr .lowest).toParser
  let _ ← expect .closeParen
  return inner

/-- A name. -/
def identifierExpression : Parser (Measured Expr) := do
  let name ← identifier
  return ⟨.ident name, 0⟩

/-- Whether a parenthesised list goes on at a token of this kind. -/
def inParens (kind : Kind) : Bool :=
  kind ≠ .closeParen && kind ≠ .eof

/-- One argument of a call; the comma behind it may be missing. -/
def argument : Parser (Measured Expr) := do
  let arg ← (expr .lowest).toParser
  skip .comma
  return arg

theorem consumes_argument : (argument expr).Consumes :=
  (expr .lowest).consumes.bind _

/-- A named function applied to arguments. -/
def callExpression : Parser (Measured Expr) := do
  let callee ← identifier
  let _ ← expect .openParen
  let args ← collect inParens (argument expr) ((consumes_argument expr).progresses _)
  let _ ← expect .closeParen
  let height ← above (Measured.highest args)
  return ⟨.call callee (args.map Measured.value), height⟩

/-- One parameter of a function literal; the comma behind it may be missing. -/
def parameter : Parser Ident := do
  let name ← identifier
  skip .comma
  return name

theorem consumes_parameter : parameter.Consumes :=
  consumes_identifier.bind _

/-- A function literal. -/
def fnExpression : Parser (Measured Expr) := do
  let token ← expect .fnWord
  let _ ← expect .openParen
  let params ← collect inParens parameter (consumes_parameter.progresses _)
  let _ ← expect .closeParen
  let _ ← expect .openBrace
  let body ← block expr true
  let _ ← expect .closeBrace
  let height ← above body.height
  return ⟨.fn token params body.value, height⟩

/-- One operand; its first token says of which form, except that a name before `(` is a callee. -/
def operand : Parser (Measured Expr) := do
  let first ← current
  match UnaryOp.ofKind? first.kind with
  | some op => unaryExpression expr op
  | none =>
    match first.kind with
    | .integer => integerExpression
    | .trueWord => booleanExpression true
    | .falseWord => booleanExpression false
    | .openParen => groupedExpression expr
    | .identifier =>
      let second ← following
      if second.kind = .openParen then callExpression expr else identifierExpression
    | .fnWord => fnExpression expr
    | .illegal => fail (.illegalByte first.byte)
    | _ => fail (.noOperand first)

theorem consumes_unaryExpression (op : UnaryOp) : (unaryExpression expr op).Consumes :=
  (consumes_expect (by cases op <;> decide)).bind _

theorem consumes_integerExpression : integerExpression.Consumes := by
  refine consumes_bind fun digits => ?_
  split
  · exact consumes_fail _
  · exact (consumes_expect (by decide)).bind _

theorem consumes_booleanExpression (value : Bool) : (booleanExpression value).Consumes :=
  (consumes_expect (by cases value <;> decide)).bind _

theorem consumes_operand : (operand expr).Consumes := by
  refine consumes_bind fun first => ?_
  split
  · exact consumes_unaryExpression expr _
  · split
    · exact consumes_integerExpression
    · exact consumes_booleanExpression true
    · exact consumes_booleanExpression false
    · exact (consumes_expect (by decide)).bind _
    · refine consumes_bind fun second => ?_
      split
      · exact consumes_identifier.bind _
      · exact consumes_identifier.bind _
    · exact (consumes_expect (by decide)).bind _
    · exact consumes_fail _
    · exact consumes_fail _

/-! ## Climbing -/

/-- The expression so far becomes the left operand of `op`. -/
def binaryExpression (left : Measured Expr) (op : BinaryOp) : Parser (Measured Expr) := do
  let token ← expect op.kind
  let right ← (expr op.kind.precedence).toParser
  let height ← above (max left.height right.height)
  return ⟨.binary token left.value op right.value, height⟩

/-- The expression so far becomes the left operand of the operator in front. Without one, no
expression can be continued. -/
def extend (left : Measured Expr) : Parser (Measured Expr) := do
  let token ← current
  match BinaryOp.ofKind? token.kind with
  | some op => binaryExpression expr left op
  | none => fail (.noOperand token)

theorem consumes_extend (left : Measured Expr) : (extend expr left).Consumes := by
  refine consumes_bind fun token => ?_
  split
  · rename_i op _
    exact (consumes_expect (by cases op <;> decide)).bind _
  · exact consumes_fail _

/-- Whether a token of this kind is an operator that binds more tightly than `min`. -/
def climbs (min : Precedence) (kind : Kind) : Bool :=
  min < kind.precedence

/-- Only operators climb, so the loop over them never meets another token. -/
theorem isSome_ofKind?_of_climbs {min : Precedence} {kind : Kind} (h : climbs min kind = true) :
    (BinaryOp.ofKind? kind).isSome = true := by
  revert h
  cases min <;> cases kind <;> decide

/-- An operand, and every operator behind it that binds more tightly than `min`. -/
def climb (min : Precedence) : Rule (Measured Expr) where
  toParser := nested do
    let first ← operand expr
    loop (climbs min) (extend expr) (fun left => (consumes_extend expr left).progresses _) first
  consumes := Consumes.nested ((consumes_operand expr).bind _)

/-- An expression whose operators bind more tightly than `min`, with room for so many open
expressions. -/
def expression : Nat → Precedence → Rule (Measured Expr)
  | 0, _ => ⟨fail (.nestingTooDeep maxHeight), consumes_fail _⟩
  | room + 1, min => climb (expression room) min

end Parser

end MonkeySyntax
