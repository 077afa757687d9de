import Mathlib.Data.List.Basic
import MonkeySyntax.Proofs.Tree.Written

/-!
# The tokens of canonical text

Canonical text leaves no blank between a sign and its operand, between a name and the parenthesis of a
call, or between a `;` and the next statement.

* `Program.canonicalTokens` — the tokens met on a walk over a tree. Names, numerals, truth values,
  keywords and operators come out of its nodes; brackets and separators are added where they stand in
  canonical text.
* `Program.tokenize_canonical` — the lexer finds just these: nowhere do two tokens run together, however
  high the tree is.
-/

namespace MonkeySyntax

/-! ## The walk -/

mutual

/-- The tokens of an expression: each operation stands in parentheses of its own, and nothing else
does. -/
def Expr.canonicalTokens : Expr → List Token
  | .ident name => [name.token]
  | .int token _ => [token]
  | .bool token _ => [token]
  | .unary token _ operand =>
    Kind.openParen.token :: token :: operand.canonicalTokens ++ [Kind.closeParen.token]
  | .binary token left _ right =>
    Kind.openParen.token :: left.canonicalTokens ++ token :: right.canonicalTokens
      ++ [Kind.closeParen.token]
  | .call callee args =>
    callee.token :: Kind.openParen.token
      :: [Kind.comma.token].intercalate (Expr.canonicalTokenLists args) ++ [Kind.closeParen.token]
  | .fn token params body =>
    token :: Kind.openParen.token
      :: [Kind.comma.token].intercalate (params.map fun p => [p.token])
      ++ Kind.closeParen.token :: Kind.openBrace.token
      :: (Stmt.canonicalTokenLists body).flatten ++ [Kind.closeBrace.token]

/-- The tokens of each of several expressions. -/
def Expr.canonicalTokenLists : List Expr → List (List Token)
  | [] => []
  | e :: es => e.canonicalTokens :: Expr.canonicalTokenLists es

/-- The tokens of a statement. -/
def Stmt.canonicalTokens : Stmt → List Token
  | .binding token name value =>
    token :: name.token :: Kind.assignment.token :: value.canonicalTokens ++ [Kind.semicolon.token]
  | .ret token value => token :: value.canonicalTokens ++ [Kind.semicolon.token]
  | .expr _ value => value.canonicalTokens ++ [Kind.semicolon.token]

/-- The tokens of each of several statements. -/
def Stmt.canonicalTokenLists : List Stmt → List (List Token)
  | [] => []
  | s :: ss => s.canonicalTokens :: Stmt.canonicalTokenLists ss

end

/-- The tokens of a program. -/
def Program.canonicalTokens (p : Program) : List Token :=
  p.statements.flatMap Stmt.canonicalTokens

@[simp]
theorem Expr.canonicalTokenLists_eq_map (es : List Expr) :
    Expr.canonicalTokenLists es = es.map Expr.canonicalTokens := by
  induction es with
  | nil => rfl
  | cons e es ih => rw [Expr.canonicalTokenLists, ih, List.map_cons]

@[simp]
theorem Stmt.canonicalTokenLists_eq_map (ss : List Stmt) :
    Stmt.canonicalTokenLists ss = ss.map Stmt.canonicalTokens := by
  induction ss with
  | nil => rfl
  | cons s ss ih => rw [Stmt.canonicalTokenLists, ih, List.map_cons]

/-! ## The walk is that of the style with all parentheses -/

theorem Stmt.canonicalTokens_eq_writtenTokens_of_value {s : Stmt}
    (h : s.value.canonicalTokens = s.value.tokensAt .full .alone) :
    s.canonicalTokens = s.writtenTokens .full := by
  cases s <;> simp only [Stmt.value] at h <;>
    simp [Stmt.canonicalTokens, Stmt.writtenTokens, h, Expr.tokensAt]

/-- In this style it does not matter where an expression stands. -/
theorem Expr.canonicalTokens_eq_tokensAt (e : Expr) (p : Position) :
    e.canonicalTokens = e.tokensAt .full p := by
  induction e generalizing p with
  | ident name => rfl
  | int token value => rfl
  | bool token value => rfl
  | unary token op operand ih =>
    rw [Expr.canonicalTokens, ih .behindSign]
    rfl
  | binary token left op right ihLeft ihRight =>
    rw [Expr.canonicalTokens, ihLeft (.leftOf op), ihRight (.rightOf op)]
    simp [Expr.tokensAt, Expr.writtenTokens, parenthesizedTokens, Style.full, Expr.isOperation]
  | call callee args ih =>
    have same : args.map Expr.canonicalTokens = args.map (Expr.tokensAt .full .alone) :=
      List.map_congr_left fun a ha => ih a ha .alone
    rw [Expr.canonicalTokens, Expr.canonicalTokenLists_eq_map, same, ← Expr.writtenTokenLists_eq_map]
    rfl
  | fn token params body ih =>
    have same : body.map Stmt.canonicalTokens = body.map (Stmt.writtenTokens .full) :=
      List.map_congr_left fun s hs =>
        Stmt.canonicalTokens_eq_writtenTokens_of_value (ih s hs .alone)
    rw [Expr.canonicalTokens, Stmt.canonicalTokenLists_eq_map, same, ← Stmt.writtenTokenLists_eq_map]
    rfl

theorem Program.canonicalTokens_eq_writtenTokens (p : Program) :
    p.canonicalTokens = p.writtenTokens .full := by
  refine List.flatMap_congr fun s _ => ?_
  have value := Expr.canonicalTokens_eq_tokensAt s.value .alone
  exact Stmt.canonicalTokens_eq_writtenTokens_of_value value

/-! ## What the lexer finds -/

/-- Canonical text never lets two tokens run together: if the tokens in the tree are those that its
nodes are written with, the lexer finds the tokens of the walk, each with its own literal, and then the
end of the input. Neither the height of the tree nor the values of its integers matter. -/
theorem Program.tokenize_canonical {p : Program}
    (h : ∀ s ∈ p.statements, s.Everywhere Expr.Spelled Stmt.Spelled) :
    tokenize p.canonical = p.canonicalTokens ++ [Token.eof] := by
  rw [Program.canonical_eq_written, Program.canonicalTokens_eq_writtenTokens]
  exact Program.tokenize_written .full h

/-- The token of a name. -/
def Token.named (name : String) : Token := ⟨.identifier, name⟩

/-- A sign in front of a sign, a call without arguments, a function without parameters or statements,
statements without a blank between them, and a numeral whose value is not the one in the tree. -/
def seams : Program :=
  ⟨[.binding Kind.letWord.token (.ofToken (.named "f"))
      (.fn Kind.fnWord.token [.ofToken (.named "x"), .ofToken (.named "y")]
        [.ret Kind.returnWord.token
          (.unary Kind.bang.token .not (.unary Kind.minus.token .neg (.int ⟨.integer, "007"⟩ 7))),
        .expr Token.eof (.call (.ofToken (.named "f")) [])]),
    .expr Token.eof
      (.binary Kind.minus.token
        (.call (.ofToken (.named "g")) [.fn Kind.fnWord.token [] [], .bool Kind.trueWord.token true])
        .sub (.int ⟨.integer, "99999999999999999999"⟩ 0))]⟩

theorem spelled_seams : ∀ s ∈ seams.statements, s.Everywhere Expr.Spelled Stmt.Spelled := by
  have ident (name : String) (h : IsName name) : (Ident.ofToken (.named name)).WellFormed :=
    ⟨rfl, rfl, h⟩
  have params : ∀ p ∈ [Ident.ofToken (.named "x"), .ofToken (.named "y")], p.WellFormed :=
    List.forall_mem_cons.mpr
      ⟨ident "x" (by decide), List.forall_mem_singleton.mpr (ident "y" (by decide))⟩
  have numeral (literal : String) (value : Int) (h : IsNumeral literal) :
      (Expr.int ⟨.integer, literal⟩ value).Everywhere Expr.Spelled Stmt.Spelled := ⟨rfl, h⟩
  have signs : (Expr.unary Kind.bang.token .not
      (.unary Kind.minus.token .neg (.int ⟨.integer, "007"⟩ 7))).Everywhere
        Expr.Spelled Stmt.Spelled := ⟨rfl, rfl, numeral "007" 7 (by decide)⟩
  have call : (Expr.call (.ofToken (.named "g"))
      [.fn Kind.fnWord.token [] [], .bool Kind.trueWord.token true]).Everywhere
        Expr.Spelled Stmt.Spelled :=
    ⟨ident "g" (by decide), ⟨⟨rfl, List.forall_mem_nil _⟩, trivial⟩, rfl, trivial⟩
  refine List.forall_mem_cons.mpr ⟨?_, List.forall_mem_singleton.mpr ?_⟩
  · exact ⟨⟨rfl, ident "f" (by decide)⟩, ⟨rfl, params⟩, ⟨rfl, signs⟩,
      ⟨trivial, ident "f" (by decide), trivial⟩, trivial⟩
  · exact ⟨trivial, rfl, call, numeral "99999999999999999999" 0 (by decide)⟩

/-- At each of these seams the tokens stay apart. -/
theorem Program.tokenize_canonical_seams :
    (∀ s ∈ seams.statements, s.Everywhere Expr.Spelled Stmt.Spelled) ∧
    seams.canonical = "let f = fn (x, y) \x7b return (!(-007));f(); \x7d;" ++
      "(g(fn () \x7b  \x7d, true) - 99999999999999999999);" ∧
    tokenize seams.canonical = seams.canonicalTokens ++ [Token.eof] ∧
    seams.canonicalTokens.map Token.literal =
      ["let", "f", "=", "fn", "(", "x", ",", "y", ")", "\x7b", "return", "(", "!", "(", "-", "007", ")",
        ")", ";", "f", "(", ")", ";", "\x7d", ";", "(", "g", "(", "fn", "(", ")", "\x7b", "\x7d", ",",
        "true", ")", "-", "99999999999999999999", ")", ";"] :=
  ⟨spelled_seams, by decide +kernel, Program.tokenize_canonical spelled_seams, by decide +kernel⟩

end MonkeySyntax
