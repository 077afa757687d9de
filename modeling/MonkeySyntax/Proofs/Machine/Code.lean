import MonkeySyntax.Parser.Expression

/-!
# The rules as code

The rules of the parser once more, as instructions to a machine that has a buffer of tokens, a
position in it, a count of open expressions and a list of errors, and changes them as it goes.

* `Code` — the instructions. An expression inside an expression is a call (`Code.expression`), so the
  code of a rule is finite although rules call each other.
* `Code.program`, `Code.statement`, `Code.operand` … — each rule in the order of its grammar.

What the instructions do is said in `MonkeySyntax.Proofs.Machine.Step`.
-/

namespace MonkeySyntax.Machine

/-- Instructions that end with a value of type `α` or with an error. -/
inductive Code : Type → Type 1
  /-- End with a value. -/
  | give {α : Type} (a : α) : Code α
  /-- End with an error. -/
  | fail {α : Type} (e : ParseError) : Code α
  /-- Run `first`, and go on with the value or with the error that it ends with. -/
  | branch {α β : Type} (first : Code α) (ok : α → Code β) (failed : ParseError → Code β) : Code β
  /-- Look at the token at the position. -/
  | current : Code Token
  /-- Look at the token behind it. -/
  | following : Code Token
  /-- Move the position on by one token, unless it is at the end of the input. -/
  | advance : Code Unit
  /-- Add an error to those recorded. -/
  | record (e : ParseError) : Code Unit
  /-- Move the position on to the end of a broken statement, with so many braces open. -/
  | resume (inBody : Bool) (braces : Nat) : Code Unit
  /-- Run `round` again and again, on the value of the round before, while the current token satisfies
  `continues`. -/
  | repeatWhile {σ : Type} (continues : Kind → Bool) (round : σ → Code σ) (s : σ) : Code σ
  /-- Call the rule for expressions whose operators bind more tightly than `min`. -/
  | expression (min : Precedence) : Code (Measured Expr)

namespace Code

variable {α : Type}

instance : Monad Code where
  pure := give
  bind first next := branch first next fail

/-! ## Building blocks -/

/-- Take a token of the given kind, or stop. -/
def expect (kind : Kind) : Code Token := do
  let token ← current
  if token.kind = kind then
    advance
    return token
  else
    fail (.unexpected kind token)

/-- Move behind the current token if it has the given kind. -/
def skip (kind : Kind) : Code Unit := do
  let token ← current
  if token.kind = kind then advance else return ()

/-- The height of a node above a tree of the given height, if the limit allows such a node. -/
def above (height : Nat) : Code Nat :=
  if maxHeight ≤ height then fail (.nestingTooDeep maxHeight) else return height + 1

/-- Run `item` again and again, and list the values. -/
def collect (continues : Kind → Bool) (item : Code α) : Code (List α) := do
  let latestFirst ← repeatWhile continues (fun seen => do return (← item) :: seen) []
  return latestFirst.reverse

/-- Where `c` ends with an error, record it, move on to the end of the statement and go on without a
value. -/
def recovering (inBody : Bool) (c : Code α) : Code (Option α) :=
  branch c (fun a => return some a) fun e => do
    record e
    resume inBody 0
    return none

/-! ## Statements -/

/-- A name. -/
def identifier : Code Ident := do
  let token ← expect .identifier
  return Ident.ofToken token

/-- A name is bound to a value. -/
def letStatement : Code (Measured Stmt) := do
  let token ← expect .letWord
  let name ← identifier
  let _ ← expect .assignment
  let value ← expression .lowest
  skip .semicolon
  return ⟨.binding token name value.value, value.height⟩

/-- A value is returned. -/
def returnStatement : Code (Measured Stmt) := do
  let token ← expect .returnWord
  let value ← expression .lowest
  skip .semicolon
  return ⟨.ret token value.value, value.height⟩

/-- An expression on its own. -/
def expressionStatement : Code (Measured Stmt) := do
  let token ← current
  let value ← expression .lowest
  skip .semicolon
  return ⟨.expr token value.value, value.height⟩

/-- One statement. -/
def statement : Code (Measured Stmt) := do
  let first ← current
  match first.kind with
  | .letWord => letStatement
  | .returnWord => returnStatement
  | _ => expressionStatement

/-- Statements up to the end of the input or, in a function body, to its closing brace. -/
def block (inBody : Bool) : Code (Measured (List Stmt)) := do
  let rounds ← collect (Parser.inBlock inBody) (recovering inBody statement)
  let kept := rounds.filterMap id
  return ⟨kept.map Measured.value, Measured.highest kept⟩

/-! ## Operands -/

/-- An operator and its operand. -/
def unaryExpression (op : UnaryOp) : Code (Measured Expr) := do
  let token ← expect op.kind
  let operand ← expression .unary
  let height ← above operand.height
  return ⟨.unary token op operand.value, height⟩

/-- An integer literal. -/
def integerExpression : Code (Measured Expr) := do
  let digits ← current
  match integerValue? digits.literal with
  | none => fail (.integerOutOfRange digits.literal)
  | some value =>
    let token ← expect .integer
    return ⟨.int token value, 0⟩

/-- `true` or `false`. -/
def booleanExpression (value : Bool) : Code (Measured Expr) := do
  let token ← expect (if value then .trueWord else .falseWord)
  return ⟨.bool token value, 0⟩

/-- An expression in parentheses. -/
def groupedExpression : Code (Measured Expr) := do
  let _ ← expect .openParen
  let inner ← expression .lowest
  let _ ← expect .closeParen
  return inner

/-- A name as an expression. -/
def identifierExpression : Code (Measured Expr) := do
  let name ← identifier
  return ⟨.ident name, 0⟩

/-- One argument of a call. -/
def argument : Code (Measured Expr) := do
  let arg ← expression .lowest
  skip .comma
  return arg

/-- A named function applied to arguments. -/
def callExpression : Code (Measured Expr) := do
  let callee ← identifier
  let _ ← expect .openParen
  let args ← collect Parser.inParens argument
  let _ ← expect .closeParen
  let height ← above (Measured.highest args)
  return ⟨.call callee (args.map Measured.value), height⟩

/-- One parameter of a function literal. -/
def parameter : Code Ident := do
  let name ← identifier
  skip .comma
  return name

/-- A function literal. -/
def fnExpression : Code (Measured Expr) := do
  let token ← expect .fnWord
  let _ ← expect .openParen
  let params ← collect Parser.inParens parameter
  let _ ← expect .closeParen
  let _ ← expect .openBrace
  let body ← block true
  let _ ← expect .closeBrace
  let height ← above body.height
  return ⟨.fn token params body.value, height⟩

/-- One operand. -/
def operand : Code (Measured Expr) := do
  let first ← current
  match UnaryOp.ofKind? first.kind with
  | some op => unaryExpression op
  | none =>
    match first.kind with
    | .integer => integerExpression
    | .trueWord => booleanExpression true
    | .falseWord => booleanExpression false
    | .openParen => groupedExpression
    | .identifier =>
      let second ← following
      if second.kind = .openParen then callExpression else identifierExpression
    | .fnWord => fnExpression
    | .illegal => fail (.illegalByte first.byte)
    | _ => fail (.noOperand first)

/-! ## Climbing and whole programs -/

/-- The expression so far becomes the left operand of `op`. -/
def binaryExpression (left : Measured Expr) (op : BinaryOp) : Code (Measured Expr) := do
  let token ← expect op.kind
  let right ← expression op.kind.precedence
  let height ← above (max left.height right.height)
  return ⟨.binary token left.value op right.value, height⟩

/-- The expression so far becomes the left operand of the operator in front. -/
def extend (left : Measured Expr) : Code (Measured Expr) := do
  let token ← current
  match BinaryOp.ofKind? token.kind with
  | some op => binaryExpression left op
  | none => fail (.noOperand token)

/-- What a call of the rule for expressions runs: an operand, and every operator behind it that binds
more tightly than `min`. -/
def climb (min : Precedence) : Code (Measured Expr) := do
  let first ← operand
  repeatWhile (Parser.climbs min) extend first

/-- A whole program, so many times over. -/
def programs : Nat → Code (List Program)
  | 0 => return []
  | calls + 1 => do
    let first ← block false
    let others ← programs calls
    return ⟨first.value⟩ :: others

end Code

end MonkeySyntax.Machine
