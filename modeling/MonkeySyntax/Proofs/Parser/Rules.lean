import MonkeySyntax.Parser.Expression
import MonkeySyntax.Proofs.Parser.Outcome
import MonkeySyntax.Proofs.Tree

/-!
# The rules of the parser

Names for the loops inside the rules, and how the next tokens decide between rules.
-/

namespace MonkeySyntax

/-! ## Values with heights -/

/-- An expression with its height, as the parser hands it on. -/
def Expr.measured (e : Expr) : Measured Expr := ⟨e, e.height⟩

/-- A statement with its height, as the parser hands it on. -/
def Stmt.measured (s : Stmt) : Measured Stmt := ⟨s, s.height⟩

theorem Measured.foldl_max {α : Type} (xs : List (Measured α)) (n : Nat) :
    xs.foldl (fun height x => max height x.height) n = max n (Measured.highest xs) := by
  induction xs generalizing n with
  | nil => simp [Measured.highest]
  | cons x xs ih =>
    show xs.foldl _ (max n x.height) = max n (xs.foldl _ (max 0 x.height))
    rw [ih, ih]
    omega

theorem Measured.highest_cons {α : Type} (x : Measured α) (xs : List (Measured α)) :
    Measured.highest (x :: xs) = max x.height (Measured.highest xs) := by
  rw [Measured.highest, List.foldl_cons, Measured.foldl_max, Nat.zero_max]

theorem Expr.highest_measured (es : List Expr) :
    Measured.highest (es.map Expr.measured) = Expr.highest es := by
  induction es with
  | nil => rfl
  | cons e es ih => rw [List.map_cons, Measured.highest_cons, ih]; rfl

theorem Stmt.highest_measured (ss : List Stmt) :
    Measured.highest (ss.map Stmt.measured) = Stmt.highest ss := by
  induction ss with
  | nil => rfl
  | cons s ss ih => rw [List.map_cons, Measured.highest_cons, ih]; rfl

@[simp]
theorem Expr.values_measured (es : List Expr) :
    (es.map Expr.measured).map Measured.value = es := by
  rw [List.map_map]
  exact List.map_id es

@[simp]
theorem Stmt.values_measured (ss : List Stmt) :
    (ss.map Stmt.measured).map Measured.value = ss := by
  rw [List.map_map]
  exact List.map_id ss

namespace Parser

/-! ## Loops -/

theorem progresses_extend (expr : Precedence → Rule (Measured Expr)) (min : Precedence)
    (left : Measured Expr) : (extend expr left).Progresses (climbs min) :=
  (consumes_extend expr left).progresses _

theorem progresses_argument (expr : Precedence → Rule (Measured Expr)) :
    (argument expr).Progresses inParens :=
  (consumes_argument expr).progresses _

/-- The loop over the operators behind an expression. -/
def operators (expr : Precedence → Rule (Measured Expr)) (min : Precedence) :
    Measured Expr → Parser (Measured Expr) :=
  loop (climbs min) (extend expr) (progresses_extend expr min)

/-- The loop over the arguments of a call. -/
def arguments (expr : Precedence → Rule (Measured Expr)) : Parser (List (Measured Expr)) :=
  collect inParens (argument expr) (progresses_argument expr)

/-- The loop over the statements of a block. -/
def rounds (expr : Precedence → Rule (Measured Expr)) (inBody : Bool) :
    Parser (List (Option (Measured Stmt))) :=
  collect (inBlock inBody) (statementOrSkip expr inBody) (progresses_statementOrSkip expr inBody)

theorem total_rounds (expr : Precedence → Rule (Measured Expr)) (inBody : Bool) :
    (rounds expr inBody).Total :=
  Total.collect (total_recovering _ _ _)

/-! ## What the next tokens decide -/

section

variable {expr : Precedence → Rule (Measured Expr)} {t : Token} {ts : Tokens}

theorem run_identifier_cons (h : t.kind = .identifier) (ts : Tokens) :
    identifier.run (t :: ts) = ⟨.ok (Ident.ofToken t), [], ts, 0⟩ := by
  unfold identifier
  rw [run_bind, run_expect_cons h (by decide)]
  rfl

theorem run_operand_unary {op : UnaryOp} (h : t.kind = op.kind) :
    (operand expr).run (t :: ts) = (unaryExpression expr op).run (t :: ts) := by
  rw [operand, run_current_bind, Tokens.current_cons, UnaryOp.ofKind?_eq_some.mpr h]

theorem run_operand_integer (h : t.kind = .integer) :
    (operand expr).run (t :: ts) = integerExpression.run (t :: ts) := by
  rw [operand, run_current_bind, Tokens.current_cons, h]
  rfl

theorem run_operand_boolean {value : Bool} (h : t.kind = if value then .trueWord else .falseWord) :
    (operand expr).run (t :: ts) = (booleanExpression value).run (t :: ts) := by
  rw [operand, run_current_bind, Tokens.current_cons, h]
  cases value <;> rfl

theorem run_operand_grouped (h : t.kind = .openParen) :
    (operand expr).run (t :: ts) = (groupedExpression expr).run (t :: ts) := by
  rw [operand, run_current_bind, Tokens.current_cons, h]
  rfl

theorem run_operand_call (h : t.kind = .identifier) (behind : ts.current.kind = .openParen) :
    (operand expr).run (t :: ts) = (callExpression expr).run (t :: ts) := by
  have notEof : t.kind ≠ .eof := by rw [h]; decide
  rw [operand, run_current_bind, Tokens.current_cons, h]
  show (following >>= _).run (t :: ts) = _
  rw [run_following_bind, Tokens.following_cons notEof, if_pos behind]

theorem run_operand_name (h : t.kind = .identifier) (behind : ts.current.kind ≠ .openParen) :
    (operand expr).run (t :: ts) = identifierExpression.run (t :: ts) := by
  have notEof : t.kind ≠ .eof := by rw [h]; decide
  rw [operand, run_current_bind, Tokens.current_cons, h]
  show (following >>= _).run (t :: ts) = _
  rw [run_following_bind, Tokens.following_cons notEof, if_neg behind]

/-- A name, and its arguments if there is a parenthesis behind it. -/
def namedExpression (expr : Precedence → Rule (Measured Expr)) : Parser (Measured Expr) := do
  let name ← identifier
  let second ← current
  if second.kind = .openParen then
    let _ ← expect .openParen
    let args ← arguments expr
    let _ ← expect .closeParen
    let height ← above (Measured.highest args)
    return ⟨.call name (args.map Measured.value), height⟩
  else
    return ⟨.ident name, 0⟩

/-- The token behind a name is the next one once the name has been taken. -/
theorem run_operand_identifier (h : t.kind = .identifier) :
    (operand expr).run (t :: ts) = (namedExpression expr).run (t :: ts) := by
  rw [namedExpression, run_bind, run_identifier_cons h, Outcome.andThen_ok, run_current_bind]
  by_cases behind : ts.current.kind = .openParen
  · rw [run_operand_call h behind, callExpression, run_bind, run_identifier_cons h, if_pos behind]
    rfl
  · rw [run_operand_name h behind, identifierExpression, run_bind, run_identifier_cons h,
      if_neg behind]
    rfl

theorem run_operand_function (h : t.kind = .fnWord) :
    (operand expr).run (t :: ts) = (fnExpression expr).run (t :: ts) := by
  rw [operand, run_current_bind, Tokens.current_cons, h]
  rfl

end

/-! ## Statements without their semicolon -/

section

variable (expr : Precedence → Rule (Measured Expr))

/-- A statement without the `;` behind it. -/
def clause : Parser (Measured Stmt) := do
  let first ← current
  match first.kind with
  | .letWord =>
    let token ← expect .letWord
    let name ← identifier
    let _ ← expect .assignment
    let value ← (expr .lowest).toParser
    return ⟨.binding token name value.value, value.height⟩
  | .returnWord =>
    let token ← expect .returnWord
    let value ← (expr .lowest).toParser
    return ⟨.ret token value.value, value.height⟩
  | _ =>
    let token ← current
    let value ← (expr .lowest).toParser
    return ⟨.expr token value.value, value.height⟩

theorem statement_eq_clause : statement expr = (do
    let s ← clause expr
    skip .semicolon
    return s) := by
  ext ts
  rw [statement, clause, bind_assoc, run_current_bind, run_current_bind]
  cases ts.current.kind <;>
    simp only [letStatement, returnStatement, expressionStatement, bind_assoc, pure_bind]

variable {expr}

/-- A block ends where it does not go on. -/
theorem block_stops {inBody : Bool} {ts rest : Tokens} {m : Measured (List Stmt)}
    {recorded : List ParseError} {reach : Nat}
    (h : (block expr inBody).run ts = ⟨.ok m, recorded, rest, reach⟩) :
    inBlock inBody rest.current.kind = false := by
  have given : (block expr inBody).Gives True ts m rest reach := ⟨recorded, h, fun _ => trivial⟩
  obtain ⟨rounds, given, -⟩ := given.map
  exact given.collect_stops

end

end Parser

end MonkeySyntax
