import MonkeySyntax.Proofs.Tree

/-!
# The tokens in a tree

`Program.yield` lists the tokens that a tree was read from, as far as the tree still shows them:
parentheses and separators leave no trace in it (`Kind.leavesTrace`).
-/

namespace MonkeySyntax

/-- Whether a token of this kind can still be seen in the tree. Parentheses, separators and the end
of the input cannot. -/
def Kind.leavesTrace : Kind → Bool
  | openParen | closeParen | comma | semicolon | eof => false
  | _ => true

theorem UnaryOp.leavesTrace_kind (op : UnaryOp) : op.kind.leavesTrace = true := by
  cases op <;> rfl

theorem BinaryOp.leavesTrace_kind (op : BinaryOp) : op.kind.leavesTrace = true := by
  cases op <;> rfl

mutual

/-- The tokens in an expression, in the order in which they were read. -/
def Expr.yield : Expr → List Token
  | .ident name => [name.token]
  | .int token _ => [token]
  | .bool token _ => [token]
  | .unary token _ operand => token :: operand.yield
  | .binary token left _ right => left.yield ++ token :: right.yield
  | .call callee args => callee.token :: Expr.yieldAll args
  | .fn token params body =>
    token :: params.map Ident.token
      ++ Kind.openBrace.token :: Stmt.yieldAll body ++ [Kind.closeBrace.token]

/-- The tokens in several expressions. -/
def Expr.yieldAll : List Expr → List Token
  | [] => []
  | e :: es => e.yield ++ Expr.yieldAll es

/-- The tokens in a statement, in the order in which they were read. -/
def Stmt.yield : Stmt → List Token
  | .binding token name value => token :: name.token :: Kind.assignment.token :: value.yield
  | .ret token value => token :: value.yield
  | .expr _ value => value.yield

/-- The tokens in several statements. -/
def Stmt.yieldAll : List Stmt → List Token
  | [] => []
  | s :: ss => s.yield ++ Stmt.yieldAll ss

end

/-- The tokens in a program, in the order in which they were read. -/
def Program.yield (p : Program) : List Token := Stmt.yieldAll p.statements

end MonkeySyntax
