import MonkeySyntax.Tree

/-!
# Canonical text

One way of writing each tree: operators fully parenthesised, one space around binary operators and
none after unary ones, `, ` between arguments and parameters, and a `;` after every statement.
Literals are written as they were read, so `007` stays `007`.

The functions on lists carry the texts already produced (latest first); the equations
`Expr.canonical_call`, `Expr.canonical_fn` state the form without them.
-/

namespace MonkeySyntax

mutual

/-- The canonical text of an expression. -/
def Expr.canonical : Expr → String
  | .ident name => name.name
  | .int token _ => token.literal
  | .bool token _ => token.literal
  | .unary _ op operand => "(" ++ op.symbol ++ operand.canonical ++ ")"
  | .binary _ left op right =>
    "(" ++ left.canonical ++ " " ++ op.symbol ++ " " ++ right.canonical ++ ")"
  | .call callee args => callee.name ++ "(" ++ ", ".intercalate (Expr.canonicalsAfter [] args) ++ ")"
  | .fn token params body =>
    token.literal ++ " (" ++ ", ".intercalate (params.map Ident.name) ++ ") \x7b "
      ++ String.join (Stmt.canonicalsAfter [] body) ++ " \x7d"

/-- The canonical texts of the expressions, after those of earlier ones (latest first). -/
def Expr.canonicalsAfter (seen : List String) : List Expr → List String
  | [] => seen.reverse
  | e :: es => Expr.canonicalsAfter (e.canonical :: seen) es

/-- The canonical text of a statement. -/
def Stmt.canonical : Stmt → String
  | .binding token name value =>
    token.literal ++ " " ++ name.name ++ " = " ++ value.canonical ++ ";"
  | .ret token value => token.literal ++ " " ++ value.canonical ++ ";"
  | .expr _ value => value.canonical ++ ";"

/-- The canonical texts of the statements, after those of earlier ones (latest first). -/
def Stmt.canonicalsAfter (seen : List String) : List Stmt → List String
  | [] => seen.reverse
  | s :: ss => Stmt.canonicalsAfter (s.canonical :: seen) ss

end

/-- The canonical text of a program: its statements, with nothing between them. -/
def Program.canonical (p : Program) : String :=
  String.join (p.statements.map Stmt.canonical)

theorem Expr.canonicalsAfter_eq (seen : List String) (es : List Expr) :
    Expr.canonicalsAfter seen es = seen.reverse ++ es.map Expr.canonical := by
  induction es generalizing seen with
  | nil => simp [Expr.canonicalsAfter]
  | cons e es ih => simp [Expr.canonicalsAfter, ih]

theorem Stmt.canonicalsAfter_eq (seen : List String) (ss : List Stmt) :
    Stmt.canonicalsAfter seen ss = seen.reverse ++ ss.map Stmt.canonical := by
  induction ss generalizing seen with
  | nil => simp [Stmt.canonicalsAfter]
  | cons s ss ih => simp [Stmt.canonicalsAfter, ih]

/-- A call is written as its callee's name and its arguments, separated by commas. -/
theorem Expr.canonical_call (callee : Ident) (args : List Expr) :
    (Expr.call callee args).canonical =
      callee.name ++ "(" ++ ", ".intercalate (args.map Expr.canonical) ++ ")" := by
  simp [Expr.canonical, Expr.canonicalsAfter_eq]

/-- A function literal is written as its keyword, its parameters and its body's statements. -/
theorem Expr.canonical_fn (token : Token) (params : List Ident) (body : List Stmt) :
    (Expr.fn token params body).canonical =
      token.literal ++ " (" ++ ", ".intercalate (params.map Ident.name) ++ ") \x7b "
        ++ Program.canonical ⟨body⟩ ++ " \x7d" := by
  simp [Expr.canonical, Stmt.canonicalsAfter_eq, Program.canonical]

end MonkeySyntax
