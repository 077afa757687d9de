import MonkeySyntax.Token

/-!
# Syntax trees

What a source text means once it is parsed. Each node keeps the token that introduced it, beside the
field that says what the token meant (a name, a number, an operator): printers use sometimes the one
and sometimes the other, so a tree built by hand may hold tokens that disagree with its fields.

* `Ident` — a name and its token.
* `UnaryOp`, `BinaryOp` — the operators, with the kinds that spell them and their text.
* `Expr`, `Stmt` — expressions and statements; a function body is a list of statements.
* `Program` — the statements of a whole source.
-/

namespace MonkeySyntax

/-- A name, with the token it was read from. -/
structure Ident where
  token : Token
  name : String
  deriving DecidableEq

/-- The name a token spells. -/
def Ident.ofToken (token : Token) : Ident := ⟨token, token.literal⟩

/-! ## Operators -/

/-- Operators before one operand. -/
inductive UnaryOp where
  | neg
  | not
  deriving DecidableEq

namespace UnaryOp

/-- The operator a kind stands for at the start of an operand. -/
def ofKind? : Kind → Option UnaryOp
  | .minus => some neg
  | .bang => some not
  | _ => none

/-- The kind of the operator's token. -/
def kind : UnaryOp → Kind
  | neg => .minus
  | not => .bang

theorem ofKind?_eq_some {k : Kind} {op : UnaryOp} : ofKind? k = some op ↔ k = op.kind := by
  cases k <;> cases op <;> decide

/-- The operator as it is written in source text. -/
def symbol : UnaryOp → String
  | neg => "-"
  | not => "!"

/-- The operator's name in dumps. -/
def name : UnaryOp → String
  | neg => "Neg"
  | not => "Not"

/-- Every operator before one operand. -/
def all : List UnaryOp := [neg, not]

/-- The operator with a given name, if there is one. -/
def ofName? (s : String) : Option UnaryOp :=
  all.find? (·.name = s)

end UnaryOp

/-- Operators between two operands. -/
inductive BinaryOp where
  | eq
  | ne
  | lt
  | gt
  | add
  | sub
  | mul
  | div
  deriving DecidableEq

namespace BinaryOp

/-- The operator a kind stands for between two operands. -/
def ofKind? : Kind → Option BinaryOp
  | .equals => some eq
  | .notEquals => some ne
  | .lessThan => some lt
  | .greaterThan => some gt
  | .plus => some add
  | .minus => some sub
  | .asterisk => some mul
  | .slash => some div
  | _ => none

/-- The kind of the operator's token. -/
def kind : BinaryOp → Kind
  | eq => .equals
  | ne => .notEquals
  | lt => .lessThan
  | gt => .greaterThan
  | add => .plus
  | sub => .minus
  | mul => .asterisk
  | div => .slash

theorem ofKind?_eq_some {k : Kind} {op : BinaryOp} : ofKind? k = some op ↔ k = op.kind := by
  cases k <;> cases op <;> decide

/-- The operator as it is written in source text. -/
def symbol : BinaryOp → String
  | eq => "=="
  | ne => "!="
  | lt => "<"
  | gt => ">"
  | add => "+"
  | sub => "-"
  | mul => "*"
  | div => "/"

/-- The operator's name in dumps. -/
def name : BinaryOp → String
  | eq => "Eq"
  | ne => "Ne"
  | lt => "Lt"
  | gt => "Gt"
  | add => "Add"
  | sub => "Sub"
  | mul => "Mul"
  | div => "Div"

/-- Every operator between two operands. -/
def all : List BinaryOp := [eq, ne, lt, gt, add, sub, mul, div]

/-- The operator with a given name, if there is one. -/
def ofName? (s : String) : Option BinaryOp :=
  all.find? (·.name = s)

end BinaryOp

/-! ## Expressions, statements, programs -/

mutual

/-- An expression. Parentheses only group and leave no node; a call names its callee. -/
inductive Expr where
  /-- A name. -/
  | ident (name : Ident)
  /-- An integer literal and its value. -/
  | int (token : Token) (value : Int)
  /-- `true` or `false`. -/
  | bool (token : Token) (value : Bool)
  /-- An operator before its operand. -/
  | unary (token : Token) (op : UnaryOp) (operand : Expr)
  /-- An operator between its operands; the token is the operator's. -/
  | binary (token : Token) (left : Expr) (op : BinaryOp) (right : Expr)
  /-- A named function applied to arguments. -/
  | call (callee : Ident) (args : List Expr)
  /-- A function literal: parameters and the statements of its body. -/
  | fn (token : Token) (params : List Ident) (body : List Stmt)

/-- A statement. -/
inductive Stmt where
  /-- `let name = value;` -/
  | binding (token : Token) (name : Ident) (value : Expr)
  /-- `return value;` -/
  | ret (token : Token) (value : Expr)
  /-- An expression on its own; the token is the first one of the statement. -/
  | expr (token : Token) (value : Expr)

end

/-- The statements of a whole source. -/
structure Program where
  statements : List Stmt

/-! ## The literal a node was introduced by -/

/-- The literal of the token that introduced the expression; for a call, of the callee's token. -/
def Expr.literal : Expr → String
  | .ident name => name.token.literal
  | .int token _ => token.literal
  | .bool token _ => token.literal
  | .unary token _ _ => token.literal
  | .binary token _ _ _ => token.literal
  | .call callee _ => callee.token.literal
  | .fn token _ _ => token.literal

/-- The literal of the token that introduced the statement. -/
def Stmt.literal : Stmt → String
  | .binding token _ _ => token.literal
  | .ret token _ => token.literal
  | .expr token _ => token.literal

/-- The literal of a program's first statement; empty for the empty program. -/
def Program.literal (p : Program) : String :=
  match p.statements with
  | [] => ""
  | s :: _ => s.literal

end MonkeySyntax
