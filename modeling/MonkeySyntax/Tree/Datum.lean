import MonkeySyntax.Datum
import MonkeySyntax.ParseError
import MonkeySyntax.Tree

/-!
# Trees, tokens and errors as labelled data

How each part of a program, and each parse error, is described in dumps. Every field of every node is
part of the description, tokens included, in a fixed order.
-/

namespace MonkeySyntax

/-- A kind is described by its name. -/
def Kind.datum (kind : Kind) : Datum := .tag kind.name

/-- A token is described by its kind and literal. -/
def Token.datum (token : Token) : Datum :=
  .record "Token" [("kind", token.kind.datum), ("literal", .text token.literal)]

/-- A name is described by its token and the name. -/
def Ident.datum (ident : Ident) : Datum :=
  .record "Ident" [("token", ident.token.datum), ("name", .text ident.name)]

mutual

/-- The description of an expression. -/
def Expr.datum : Expr → Datum
  | .ident name => .wrapped "Ident" name.datum
  | .int token value => .variant "Int" [("token", token.datum), ("value", .int value)]
  | .bool token value => .variant "Bool" [("token", token.datum), ("value", .bool value)]
  | .unary token op operand =>
    .variant "Prefix"
      [("token", token.datum), ("op", .tag op.name), ("right", operand.datum)]
  | .binary token left op right =>
    .variant "Infix"
      [("token", token.datum), ("lhs", left.datum), ("op", .tag op.name), ("rhs", right.datum)]
  | .call callee args =>
    .variant "Call" [("callee", callee.datum), ("args", .list (Expr.dataAfter [] args))]
  | .fn token params body =>
    .variant "Fn"
      [("token", token.datum), ("params", .list (params.map Ident.datum)),
        ("body", .record "Program" [("statements", .list (Stmt.dataAfter [] body))])]

/-- The descriptions of the expressions, after those of earlier ones (latest first). -/
def Expr.dataAfter (seen : List Datum) : List Expr → List Datum
  | [] => seen.reverse
  | e :: es => Expr.dataAfter (e.datum :: seen) es

/-- The description of a statement. -/
def Stmt.datum : Stmt → Datum
  | .binding token name value =>
    .wrapped "Let" (.record "LetStmt"
      [("token", token.datum), ("name", name.datum), ("value", value.datum)])
  | .ret token value =>
    .wrapped "Return" (.record "ReturnStmt" [("token", token.datum), ("value", value.datum)])
  | .expr token value =>
    .wrapped "Expr" (.record "ExprStmt" [("token", token.datum), ("expr", value.datum)])

/-- The descriptions of the statements, after those of earlier ones (latest first). -/
def Stmt.dataAfter (seen : List Datum) : List Stmt → List Datum
  | [] => seen.reverse
  | s :: ss => Stmt.dataAfter (s.datum :: seen) ss

end

theorem Expr.dataAfter_eq (seen : List Datum) (es : List Expr) :
    Expr.dataAfter seen es = seen.reverse ++ es.map Expr.datum := by
  induction es generalizing seen with
  | nil => simp [Expr.dataAfter]
  | cons e es ih => simp [Expr.dataAfter, ih]

theorem Stmt.dataAfter_eq (seen : List Datum) (ss : List Stmt) :
    Stmt.dataAfter seen ss = seen.reverse ++ ss.map Stmt.datum := by
  induction ss generalizing seen with
  | nil => simp [Stmt.dataAfter]
  | cons s ss ih => simp [Stmt.dataAfter, ih]

/-- The description of a program: its statements. -/
def Program.datum (p : Program) : Datum :=
  .record "Program" [("statements", .list (p.statements.map Stmt.datum))]

/-- The description of a parse error. -/
def ParseError.datum : ParseError → Datum
  | .unexpectedToken expected found =>
    .variant "UnexpectedToken" [("expected", expected.datum), ("found", found.datum)]
  | .noOperand found => .variant "NoPrefixRule" [("found", found.datum)]
  | .integerOutOfRange digits => .variant "InvalidIntegerLiteral" [("text", .text digits)]
  | .illegalByte byte =>
    .wrapped "Illegal" (.variant "IllegalByte" [("byte", .int byte.toNat)])
  | .nestingTooDeep limit => .variant "NestingTooDeep" [("limit", .int limit)]

/-- The description of a list of parse errors. -/
def ParseError.listDatum (errors : List ParseError) : Datum :=
  .wrapped "ParseErrors" (.list (errors.map ParseError.datum))

end MonkeySyntax
