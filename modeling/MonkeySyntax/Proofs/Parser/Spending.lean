import MonkeySyntax.Proofs.Parser.Paid
import MonkeySyntax.Proofs.Parser.Rules

/-!
# What the rules pay for

* `paid_expression` — an expression pays for the errors recorded in it, for each statement in it, and
  one token for itself.
* `paid_statement` — a statement pays for the errors and for each statement in it; it is one of them.
* `paid_block` — a block pays for the errors and for each statement that it keeps.
-/

namespace MonkeySyntax

/-! ## Costs -/

/-- What an expression costs: one token for each statement in it and one for itself. -/
def Measured.exprCost (m : Measured Expr) : Nat := m.value.statementCount + 1

/-- What a statement costs: one token for each statement in it. -/
def Measured.stmtCost (m : Measured Stmt) : Nat := m.value.statementCount

/-- What a block costs: one token for each statement in it. -/
def Measured.blockCost (m : Measured (List Stmt)) : Nat := Stmt.statementCounts m.value

theorem Measured.statementCounts_le (args : List (Measured Expr)) :
    Expr.statementCounts (args.map Measured.value) ≤ (args.map Measured.exprCost).sum := by
  induction args with
  | nil => exact Nat.le_refl 0
  | cons arg args ih =>
    rw [List.map_cons, List.map_cons, List.sum_cons, Expr.statementCounts, exprCost]
    omega

/-- A round in which nothing was kept costs nothing. -/
theorem Measured.statementCounts_kept (rounds : List (Option (Measured Stmt))) :
    Stmt.statementCounts ((rounds.filterMap id).map Measured.value) =
      (rounds.map (·.elim 0 Measured.stmtCost)).sum := by
  induction rounds with
  | nil => rfl
  | cons round rounds ih =>
    rw [List.map_cons, List.sum_cons, ← ih]
    cases round with
    | none =>
      rw [Option.elim_none, Nat.zero_add]
      rfl
    | some s => rfl

namespace Parser

/-! ## Rules without expressions in them -/

theorem paid_identifier : Paid 0 (fun _ => 1) identifier :=
  (paid_expect (by decide)).map fun _ => Nat.le_refl 1

theorem paid_integerExpression : Paid 0 Measured.exprCost integerExpression := by
  apply paid_current_bind
  intro digits
  split
  · exact paid_fail _
  · exact (paid_expect (by decide)).map fun _ => Nat.le_refl 1

theorem paid_booleanExpression (value : Bool) :
    Paid 0 Measured.exprCost (booleanExpression value) :=
  (paid_expect (by cases value <;> decide)).map fun _ => Nat.le_refl 1

theorem paid_identifierExpression : Paid 0 Measured.exprCost identifierExpression :=
  paid_identifier.map fun _ => Nat.le_refl 1

theorem paid_parameter : Paid 0 (fun _ => 1) parameter := by
  apply paid_identifier.bind (fun _ => Nat.one_pos)
  intro name
  exact (paid_skip _).map fun _ => Nat.le_refl 1

theorem paid_parameters :
    Paid 0 (fun params => (params.map fun _ => 1).sum)
      (collect inParens parameter (consumes_parameter.progresses _)) :=
  Paid.collect (.inl fun _ => Nat.one_pos) fun ts _ => paid_parameter ts

section

variable {expr : Precedence → Rule (Measured Expr)}
  (hexpr : ∀ min, Paid 0 Measured.exprCost (expr min).toParser)
include hexpr

/-! ## Statements -/

theorem paid_letStatement : Paid 0 Measured.stmtCost (letStatement expr) := by
  apply Paid.bind (paid_expect (by decide)) (fun _ => Nat.succ_pos _)
  intro token
  apply paid_identifier.bind (fun _ => Nat.succ_pos _)
  intro name
  apply Paid.bind (paid_expect (by decide)) (fun _ => Nat.succ_pos _)
  intro _
  apply (hexpr _).bind (fun _ => Nat.succ_pos _)
  intro value
  apply (paid_skip _).map
  intro _
  exact Nat.le_add_left (value.value.statementCount + 1) 3

theorem paid_returnStatement : Paid 0 Measured.stmtCost (returnStatement expr) := by
  apply Paid.bind (paid_expect (by decide)) (fun _ => Nat.succ_pos _)
  intro token
  apply (hexpr _).bind (fun _ => Nat.succ_pos _)
  intro value
  apply (paid_skip _).map
  intro _
  exact Nat.le_add_left (value.value.statementCount + 1) 1

/-- The token that the expression pays for itself pays for the statement. -/
theorem paid_expressionStatement : Paid 0 Measured.stmtCost (expressionStatement expr) := by
  apply paid_current_bind
  intro token
  apply (hexpr _).bind (fun _ => Nat.succ_pos _)
  intro value
  apply (paid_skip _).map
  intro _
  exact Nat.le_add_left (value.value.statementCount + 1) 0

theorem paid_statement : Paid 0 Measured.stmtCost (statement expr) := by
  apply paid_current_bind
  intro first
  split
  · exact paid_letStatement hexpr
  · exact paid_returnStatement hexpr
  · exact paid_expressionStatement hexpr

theorem paid_rounds (inBody : Bool) :
    Paid 0 (fun rounds => (rounds.map (·.elim 0 Measured.stmtCost)).sum) (rounds expr inBody) := by
  apply Paid.collect (.inr (total_recovering _ _ _))
  intro ts goesOn
  -- a round never stops with an error, so it drops a token
  obtain ⟨round, value⟩ := total_recovering (statement expr) _ (Tokens.resume_suffix inBody 0) ts
  apply paidFrom_recovering (paid_statement hexpr)
  exact progresses_statementOrSkip expr inBody ts round goesOn value

theorem paid_block (inBody : Bool) : Paid 0 Measured.blockCost (block expr inBody) := by
  apply (paid_rounds hexpr inBody).map
  intro rounds
  rw [Nat.zero_add]
  exact Nat.le_of_eq (Measured.statementCounts_kept rounds)

/-! ## Operands -/

theorem paid_unaryExpression (op : UnaryOp) :
    Paid 0 Measured.exprCost (unaryExpression expr op) := by
  apply Paid.bind (paid_expect op.kind_ne_eof) (fun _ => Nat.succ_pos _)
  intro token
  apply (hexpr _).bind (fun _ => Nat.succ_pos _)
  intro operand
  apply (paid_above _).map
  intro _
  exact Nat.le_add_left (operand.value.statementCount + 1) 1

theorem paid_groupedExpression : Paid 0 Measured.exprCost (groupedExpression expr) := by
  apply Paid.bind (paid_expect (by decide)) (fun _ => Nat.succ_pos _)
  intro _
  apply (hexpr _).bind (fun _ => Nat.succ_pos _)
  intro inner
  apply Paid.map (paid_expect (by decide))
  intro _
  show inner.exprCost ≤ 0 + 1 + inner.exprCost + 1
  omega

theorem paid_argument : Paid 0 Measured.exprCost (argument expr) := by
  apply (hexpr _).bind (fun _ => Nat.succ_pos _)
  intro arg
  apply (paid_skip _).map
  intro _
  exact Nat.le_add_left arg.exprCost 0

theorem paid_arguments :
    Paid 0 (fun args => (args.map Measured.exprCost).sum) (arguments expr) :=
  Paid.collect (.inl fun _ => Nat.succ_pos _) fun ts _ => paid_argument hexpr ts

theorem paid_callExpression : Paid 0 Measured.exprCost (callExpression expr) := by
  apply paid_identifier.bind (fun _ => Nat.succ_pos _)
  intro callee
  apply Paid.bind (paid_expect (by decide)) (fun _ => Nat.succ_pos _)
  intro _
  apply (paid_arguments hexpr).bind (fun _ => Nat.add_pos_left (Nat.succ_pos _) _)
  intro args
  apply Paid.bind (paid_expect (by decide)) (fun _ => Nat.succ_pos _)
  intro _
  apply (paid_above _).map
  intro _
  have le := Measured.statementCounts_le args
  show Expr.statementCounts (args.map Measured.value) + 1 ≤
    0 + 1 + 1 + (args.map Measured.exprCost).sum + 1
  omega

/-- The tokens in front of the body have paid for nothing, should the body not be closed. -/
theorem paid_fnExpression : Paid 0 Measured.exprCost (fnExpression expr) := by
  apply Paid.bind (paid_expect (by decide)) (fun _ => Nat.succ_pos _)
  intro token
  apply Paid.bind (paid_expect (by decide)) (fun _ => Nat.succ_pos _)
  intro _
  apply paid_parameters.bind (fun _ => Nat.add_pos_left (Nat.succ_pos _) _)
  intro params
  apply Paid.bind (paid_expect (by decide)) (fun _ => Nat.succ_pos _)
  intro _
  apply Paid.bind (paid_expect (by decide)) (fun _ => Nat.succ_pos _)
  intro _
  apply (paid_block hexpr true).bind (fun _ => Nat.add_pos_left (Nat.succ_pos _) _)
  intro body
  apply Paid.bind (paid_expect (by decide)) (fun _ => Nat.succ_pos _)
  intro _
  apply (paid_above _).map
  intro _
  show Stmt.statementCounts body.value + 1 ≤
    0 + 1 + 1 + (params.map fun _ => 1).sum + 1 + 1 + Stmt.statementCounts body.value + 1
  omega

theorem paid_operand : Paid 0 Measured.exprCost (operand expr) := by
  apply paid_current_bind
  intro first
  split
  · exact paid_unaryExpression hexpr _
  · split
    · exact paid_integerExpression
    · exact paid_booleanExpression true
    · exact paid_booleanExpression false
    · exact paid_groupedExpression hexpr
    · apply paid_following_bind
      intro second
      split
      · exact paid_callExpression hexpr
      · exact paid_identifierExpression
    · exact paid_fnExpression hexpr
    · exact paid_fail _
    · exact paid_fail _

/-! ## Climbing -/

/-- What the left operand has paid for itself pays for the whole. -/
theorem paid_extend (left : Measured Expr) :
    Paid left.exprCost Measured.exprCost (extend expr left) := by
  apply paid_current_bind
  intro token
  split
  · rename_i op _
    apply Paid.bind (paid_expect op.kind_ne_eof) (fun _ => Nat.succ_pos _)
    intro token
    apply (hexpr _).bind (fun _ => Nat.succ_pos _)
    intro right
    apply (paid_above _).map
    intro _
    show left.value.statementCount + right.value.statementCount + 1 ≤
      left.value.statementCount + 1 + 1 + (right.value.statementCount + 1)
    omega
  · exact paid_fail _

theorem paid_climb (min : Precedence) : Paid 0 Measured.exprCost (climb expr min).toParser := by
  apply Paid.nested
  apply (paid_operand hexpr).bind (fun _ => Nat.succ_pos _)
  intro first
  rw [Nat.zero_add]
  exact Paid.loop (fun _ => Nat.succ_pos _) (paid_extend hexpr) first

end

/-- An expression pays for the errors recorded in it, for each statement in it, and for itself. -/
theorem paid_expression (room : Nat) (min : Precedence) :
    Paid 0 Measured.exprCost (expression room min).toParser := by
  induction room generalizing min with
  | zero => exact paid_fail _
  | succ room ih => exact paid_climb ih min

end Parser

end MonkeySyntax
