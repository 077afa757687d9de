import MonkeySyntax.Tree.Canonical

/-!
# Outline of a program

The nodes of a program in pre-order, each with the sort of node, the literal that introduced it and its
canonical text. A call's callee is part of the call's own entry; a function literal is followed by its
parameters and by its body, which is a program of its own.
-/

namespace MonkeySyntax

/-- One node of an outline. -/
structure OutlineEntry where
  sort : String
  literal : String
  text : String
  deriving DecidableEq

/-- The entry of a program, without its statements. -/
def Program.outlineEntry (sort : String) (p : Program) : OutlineEntry :=
  ⟨sort, p.literal, p.canonical⟩

/-- The entry of a name. -/
def Ident.outlineEntry (sort : String) (ident : Ident) : OutlineEntry :=
  ⟨sort, ident.token.literal, ident.name⟩

/-- The sort of an expression. -/
def Expr.sort : Expr → String
  | .ident _ => "Ident"
  | .int _ _ => "Int"
  | .bool _ _ => "Bool"
  | .unary _ _ _ => "Prefix"
  | .binary _ _ _ _ => "Infix"
  | .call _ _ => "Call"
  | .fn _ _ _ => "Fn"

/-- The entry of an expression, without the nodes below it. -/
def Expr.outlineEntry (e : Expr) : OutlineEntry :=
  ⟨e.sort, e.literal, e.canonical⟩

/-- The sort of a statement. -/
def Stmt.sort : Stmt → String
  | .binding _ _ _ => "Let"
  | .ret _ _ => "Return"
  | .expr _ _ => "Stmt"

/-- The entry of a statement, without the nodes below it. -/
def Stmt.outlineEntry (s : Stmt) : OutlineEntry :=
  ⟨s.sort, s.literal, s.canonical⟩

mutual

/-- The nodes of an expression, after those of earlier ones (latest first). -/
def Expr.outlineAfter (seen : List OutlineEntry) : Expr → List OutlineEntry
  | e@(.ident _) | e@(.int _ _) | e@(.bool _ _) => e.outlineEntry :: seen
  | e@(.unary _ _ operand) => operand.outlineAfter (e.outlineEntry :: seen)
  | e@(.binary _ left _ right) => right.outlineAfter (left.outlineAfter (e.outlineEntry :: seen))
  | e@(.call _ args) => Expr.outlinesAfter (e.outlineEntry :: seen) args
  | e@(.fn _ params body) =>
    Stmt.outlinesAfter
      (Program.outlineEntry "Body" ⟨body⟩
        :: (params.map (Ident.outlineEntry "Param")).reverse ++ e.outlineEntry :: seen)
      body

/-- The nodes of several expressions, after those of earlier ones (latest first). -/
def Expr.outlinesAfter (seen : List OutlineEntry) : List Expr → List OutlineEntry
  | [] => seen
  | e :: es => Expr.outlinesAfter (e.outlineAfter seen) es

/-- The nodes of a statement, after those of earlier ones (latest first). -/
def Stmt.outlineAfter (seen : List OutlineEntry) : Stmt → List OutlineEntry
  | s@(.binding _ name value) =>
    value.outlineAfter (name.outlineEntry "Name" :: s.outlineEntry :: seen)
  | s@(.ret _ value) => value.outlineAfter (s.outlineEntry :: seen)
  | s@(.expr _ value) => value.outlineAfter (s.outlineEntry :: seen)

/-- The nodes of several statements, after those of earlier ones (latest first). -/
def Stmt.outlinesAfter (seen : List OutlineEntry) : List Stmt → List OutlineEntry
  | [] => seen
  | s :: ss => Stmt.outlinesAfter (s.outlineAfter seen) ss

end

/-- The nodes of a program in pre-order, the program itself first. -/
def Program.outline (p : Program) : List OutlineEntry :=
  (Stmt.outlinesAfter [p.outlineEntry "Program"] p.statements).reverse

end MonkeySyntax
