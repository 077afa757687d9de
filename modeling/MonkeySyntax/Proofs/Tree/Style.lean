import MonkeySyntax.Precedence
import MonkeySyntax.Proofs.Tree
import MonkeySyntax.Tree.Canonical

/-!
# Styles of parentheses

Canonical text has parentheses around every operation. There are other ways of writing a tree, which
differ from it in parentheses only; a `Style` says where they stand.

* `Position.needsParens` — where a tree would fall apart without parentheses: an operand whose own
  operator binds too weakly.
* `Style` — parentheses at least there, and only around operations.
* `Style.minimal`, `Style.full` — the two ends: `Program.minimal` is written with the one, and
  canonical text with the other (`Program.canonical_eq_written`).
* `Expr.written`, `Expr.writtenTokens` — the text of a tree in some style, and its tokens.
-/

namespace MonkeySyntax

/-! ## Where parentheses are needed -/

/-- Where an expression stands: between separators, behind a sign, or as an operand of an operator. -/
inductive Position where
  | alone
  | behindSign
  | leftOf (op : BinaryOp)
  | rightOf (op : BinaryOp)

/-- How tightly the outermost operator of an expression binds. Whatever is no operation between two
operands holds together as tightly as a sign. -/
def Expr.precedence : Expr → Precedence
  | .binary _ _ op _ => op.kind.precedence
  | _ => .unary

/-- Whether an expression has to stand in parentheses. Operators of one level associate to the left, so
they may stand on the left of each other. -/
def Position.needsParens : Position → Expr → Bool
  | .alone, _ => false
  | .behindSign, e => e.precedence < .unary
  | .leftOf op, e => e.precedence < op.kind.precedence
  | .rightOf op, e => e.precedence ≤ op.kind.precedence

/-- Whether the expression is made by an operator. -/
def Expr.isOperation : Expr → Bool
  | .unary _ _ _ => true
  | .binary _ _ _ _ => true
  | _ => false

/-- A choice of parentheses: all that are needed, and none but around operations. -/
structure Style where
  parens : Position → Expr → Bool
  enough : ∀ p e, p.needsParens e = true → parens p e = true
  onlyOperations : ∀ p e, parens p e = true → e.isOperation = true

/-- Only operations between two operands ever need parentheses. -/
theorem Position.isOperation_of_needsParens {p : Position} {e : Expr} (h : p.needsParens e = true) :
    e.isOperation = true := by
  cases e with
  | unary => rfl
  | binary => rfl
  | _ =>
    cases p with
    | alone => cases h
    | behindSign => cases h
    | leftOf op => cases op <;> cases h
    | rightOf op => cases op <;> cases h

/-- Parentheses only where they are needed. -/
def Style.minimal : Style where
  parens := Position.needsParens
  enough _ _ h := h
  onlyOperations _ _ h := Position.isOperation_of_needsParens h

/-- Parentheses around every operation. -/
def Style.full : Style where
  parens _ e := e.isOperation
  enough _ _ h := Position.isOperation_of_needsParens h
  onlyOperations _ _ h := h

/-! ## Text -/

/-- The text, perhaps in parentheses. -/
def parenthesized (parens : Bool) (text : String) : String :=
  if parens then "(" ++ text ++ ")" else text

mutual

/-- The text of an expression, without parentheses around the whole. -/
def Expr.written (style : Style) : Expr → String
  | .ident name => name.name
  | .int token _ => token.literal
  | .bool token _ => token.literal
  | .unary _ op operand =>
    op.symbol ++ parenthesized (style.parens .behindSign operand) (operand.written style)
  | .binary _ left op right =>
    parenthesized (style.parens (.leftOf op) left) (left.written style) ++ " " ++ op.symbol ++ " "
      ++ parenthesized (style.parens (.rightOf op) right) (right.written style)
  | .call callee args =>
    callee.name ++ "(" ++ ", ".intercalate (Expr.writtenEach style args) ++ ")"
  | .fn token params body =>
    token.literal ++ " (" ++ ", ".intercalate (params.map Ident.name) ++ ") \x7b "
      ++ String.join (Stmt.writtenEach style body) ++ " \x7d"

/-- The texts of several expressions that stand alone. -/
def Expr.writtenEach (style : Style) : List Expr → List String
  | [] => []
  | e :: es =>
    parenthesized (style.parens .alone e) (e.written style) :: Expr.writtenEach style es

/-- The text of a statement. -/
def Stmt.written (style : Style) : Stmt → String
  | .binding token name value =>
    token.literal ++ " " ++ name.name ++ " = "
      ++ parenthesized (style.parens .alone value) (value.written style) ++ ";"
  | .ret token value =>
    token.literal ++ " " ++ parenthesized (style.parens .alone value) (value.written style) ++ ";"
  | .expr _ value => parenthesized (style.parens .alone value) (value.written style) ++ ";"

/-- The texts of several statements. -/
def Stmt.writtenEach (style : Style) : List Stmt → List String
  | [] => []
  | s :: ss => s.written style :: Stmt.writtenEach style ss

end

/-- The text of a program: its statements, with nothing between them. -/
def Program.written (style : Style) (p : Program) : String :=
  String.join (p.statements.map (Stmt.written style))

/-- The text of a program with no more parentheses than it needs. -/
def Program.minimal (p : Program) : String := p.written .minimal

section

variable (style : Style)

/-- The text of an expression where it stands. -/
def Expr.writtenAt (p : Position) (e : Expr) : String :=
  parenthesized (style.parens p e) (e.written style)

@[simp]
theorem Expr.writtenEach_eq_map (es : List Expr) :
    Expr.writtenEach style es = es.map (Expr.writtenAt style .alone) := by
  induction es with
  | nil => rfl
  | cons e es ih => rw [Expr.writtenEach, ih, List.map_cons, Expr.writtenAt]

@[simp]
theorem Stmt.writtenEach_eq_map (ss : List Stmt) :
    Stmt.writtenEach style ss = ss.map (Stmt.written style) := by
  induction ss with
  | nil => rfl
  | cons s ss ih => rw [Stmt.writtenEach, ih, List.map_cons]

end

/-! ## Canonical text -/

theorem Stmt.canonical_eq_written_of_value {s : Stmt}
    (h : s.value.canonical = s.value.writtenAt .full .alone) : s.canonical = s.written .full := by
  cases s <;> simp only [Stmt.value] at h <;> simp [Stmt.canonical, Stmt.written, h, Expr.writtenAt]

theorem Expr.canonical_eq_writtenAt (e : Expr) (p : Position) :
    e.canonical = e.writtenAt .full p := by
  induction e generalizing p with
  | ident name => rfl
  | int token value => rfl
  | bool token value => rfl
  | unary token op operand ih =>
    rw [Expr.canonical, ih .behindSign]
    simp [Expr.writtenAt, Expr.written, parenthesized, Style.full, Expr.isOperation,
      String.append_assoc]
  | binary token left op right ihLeft ihRight =>
    rw [Expr.canonical, ihLeft (.leftOf op), ihRight (.rightOf op)]
    simp [Expr.writtenAt, Expr.written, parenthesized, Style.full, Expr.isOperation,
      String.append_assoc]
  | call callee args ih =>
    have same : args.map Expr.canonical = args.map (Expr.writtenAt .full .alone) :=
      List.map_congr_left fun a ha => ih a ha .alone
    rw [Expr.canonical_call, same, ← Expr.writtenEach_eq_map]
    rfl
  | fn token params body ih =>
    have same : body.map Stmt.canonical = body.map (Stmt.written .full) :=
      List.map_congr_left fun s hs => Stmt.canonical_eq_written_of_value (ih s hs .alone)
    rw [Expr.canonical_fn, Program.canonical, same, ← Stmt.writtenEach_eq_map]
    rfl

/-- Canonical text has parentheses around every operation. -/
theorem Program.canonical_eq_written (p : Program) : p.canonical = p.written .full := by
  have same : p.statements.map Stmt.canonical = p.statements.map (Stmt.written .full) :=
    List.map_congr_left fun s _ =>
      Stmt.canonical_eq_written_of_value (Expr.canonical_eq_writtenAt s.value .alone)
  rw [Program.canonical, Program.written, same]

/-! ## Tokens -/

/-- The tokens, perhaps in parentheses. -/
def parenthesizedTokens (parens : Bool) (ts : List Token) : List Token :=
  if parens then Kind.openParen.token :: ts ++ [Kind.closeParen.token] else ts

mutual

/-- The tokens of an expression, without parentheses around the whole. -/
def Expr.writtenTokens (style : Style) : Expr → List Token
  | .ident name => [name.token]
  | .int token _ => [token]
  | .bool token _ => [token]
  | .unary token _ operand =>
    token :: parenthesizedTokens (style.parens .behindSign operand) (operand.writtenTokens style)
  | .binary token left op right =>
    parenthesizedTokens (style.parens (.leftOf op) left) (left.writtenTokens style) ++ token ::
      parenthesizedTokens (style.parens (.rightOf op) right) (right.writtenTokens style)
  | .call callee args =>
    callee.token :: Kind.openParen.token
      :: [Kind.comma.token].intercalate (Expr.writtenTokenLists style args)
      ++ [Kind.closeParen.token]
  | .fn token params body =>
    token :: Kind.openParen.token
      :: [Kind.comma.token].intercalate (params.map fun p => [p.token])
      ++ Kind.closeParen.token :: Kind.openBrace.token
      :: (Stmt.writtenTokenLists style body).flatten ++ [Kind.closeBrace.token]

/-- The tokens of each of several expressions that stand alone. -/
def Expr.writtenTokenLists (style : Style) : List Expr → List (List Token)
  | [] => []
  | e :: es =>
    parenthesizedTokens (style.parens .alone e) (e.writtenTokens style)
      :: Expr.writtenTokenLists style es

/-- The tokens of a statement. -/
def Stmt.writtenTokens (style : Style) : Stmt → List Token
  | .binding token name value =>
    token :: name.token :: Kind.assignment.token
      :: parenthesizedTokens (style.parens .alone value) (value.writtenTokens style)
      ++ [Kind.semicolon.token]
  | .ret token value =>
    token :: parenthesizedTokens (style.parens .alone value) (value.writtenTokens style)
      ++ [Kind.semicolon.token]
  | .expr _ value =>
    parenthesizedTokens (style.parens .alone value) (value.writtenTokens style)
      ++ [Kind.semicolon.token]

/-- The tokens of each of several statements. -/
def Stmt.writtenTokenLists (style : Style) : List Stmt → List (List Token)
  | [] => []
  | s :: ss => s.writtenTokens style :: Stmt.writtenTokenLists style ss

end

/-- The tokens of a program. -/
def Program.writtenTokens (style : Style) (p : Program) : List Token :=
  p.statements.flatMap (Stmt.writtenTokens style)

section

variable (style : Style)

/-- The tokens of an expression where it stands. -/
def Expr.tokensAt (p : Position) (e : Expr) : List Token :=
  parenthesizedTokens (style.parens p e) (e.writtenTokens style)

/-- The first token of an expression that stands alone. -/
def Expr.leadingToken (e : Expr) : Token := Tokens.current (e.tokensAt style .alone)

@[simp]
theorem Expr.writtenTokenLists_eq_map (es : List Expr) :
    Expr.writtenTokenLists style es = es.map (Expr.tokensAt style .alone) := by
  induction es with
  | nil => rfl
  | cons e es ih => rw [Expr.writtenTokenLists, ih, List.map_cons, Expr.tokensAt]

@[simp]
theorem Stmt.writtenTokenLists_eq_map (ss : List Stmt) :
    Stmt.writtenTokenLists style ss = ss.map (Stmt.writtenTokens style) := by
  induction ss with
  | nil => rfl
  | cons s ss ih => rw [Stmt.writtenTokenLists, ih, List.map_cons]

end

end MonkeySyntax
