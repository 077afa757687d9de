import MonkeySyntax.Proofs.Parser.Contained
import MonkeySyntax.Proofs.Parser.Rules

/-!
# The rules are balanced

* `balanced_expression` — whether it succeeds or not, an expression leaves the number of open braces
  as it is, unless the input ends inside it.
* `balanced_clause`, `balanced_statement` — so does a statement without its `;` anywhere, and a
  statement with it inside a body.
-/

namespace MonkeySyntax

/-- Operators are no braces and end no statement. -/
theorem UnaryOp.guardedLevel?_kind (op : UnaryOp) (n : Nat) : op.kind.guardedLevel? n = some n := by
  cases op <;> rfl

theorem BinaryOp.guardedLevel?_kind (op : BinaryOp) (n : Nat) :
    op.kind.guardedLevel? n = some n := by
  cases op <;> rfl

namespace Parser

section

variable {expr : Precedence → Rule (Measured Expr)} {least : Nat}

theorem balanced_identifier : Balanced least identifier :=
  (balanced_expect fun _ _ => rfl).bind fun _ => balanced_pure _

theorem balanced_integerExpression : Balanced least integerExpression := by
  refine balanced_current_bind fun digits => ?_
  split
  · exact balanced_fail _
  · exact (balanced_expect fun _ _ => rfl).bind fun _ => balanced_pure _

theorem balanced_booleanExpression (value : Bool) : Balanced least (booleanExpression value) :=
  (balanced_expect fun _ _ => by cases value <;> rfl).bind fun _ => balanced_pure _

theorem balanced_parameters : Balanced least (collect inParens parameter
    (consumes_parameter.progresses _)) :=
  Balanced.collect (balanced_identifier.bind fun _ =>
    (balanced_skip fun _ _ => rfl).bind fun _ => balanced_pure _)

variable (hexpr : ∀ min, Balanced 0 (expr min).toParser)
include hexpr

theorem balanced_unaryExpression (op : UnaryOp) : Balanced 0 (unaryExpression expr op) := by
  apply Balanced.bind (balanced_expect fun n _ => op.guardedLevel?_kind n)
  intro token
  apply Balanced.bind (hexpr _)
  intro operand
  exact (balanced_above _).bind fun _ => balanced_pure _

theorem balanced_groupedExpression : Balanced 0 (groupedExpression expr) := by
  apply Balanced.bind (balanced_expect fun _ _ => rfl)
  intro _
  apply Balanced.bind (hexpr _)
  intro inner
  exact (balanced_expect fun _ _ => rfl).bind fun _ => balanced_pure _

theorem balanced_arguments : Balanced 0 (arguments expr) := by
  apply Balanced.collect
  apply Balanced.bind (hexpr _)
  intro arg
  exact (balanced_skip fun _ _ => rfl).bind fun _ => balanced_pure _

theorem balanced_namedExpression : Balanced 0 (namedExpression expr) := by
  apply balanced_identifier.bind
  intro name
  apply balanced_current_bind
  intro second
  split
  · apply Balanced.bind (balanced_expect fun _ _ => rfl)
    intro _
    apply (balanced_arguments hexpr).bind
    intro args
    apply Balanced.bind (balanced_expect fun _ _ => rfl)
    intro _
    exact (balanced_above _).bind fun _ => balanced_pure _
  · exact balanced_pure _

theorem balanced_clause : Balanced 0 (clause expr) := by
  apply balanced_current_bind
  intro first
  split
  · apply Balanced.bind (balanced_expect fun _ _ => rfl)
    intro token
    apply balanced_identifier.bind
    intro name
    apply Balanced.bind (balanced_expect fun _ _ => rfl)
    intro _
    exact (hexpr _).bind fun _ => balanced_pure _
  · apply Balanced.bind (balanced_expect fun _ _ => rfl)
    intro token
    exact (hexpr _).bind fun _ => balanced_pure _
  · apply balanced_current_bind
    intro token
    exact (hexpr _).bind fun _ => balanced_pure _

/-- Inside braces, a `;` ends no statement around them. -/
theorem balanced_statement : Balanced 1 (statement expr) := by
  have passes (n : Nat) (inside : 1 ≤ n) : Kind.semicolon.guardedLevel? n = some n :=
    if_neg (Nat.ne_zero_of_lt inside)
  rw [statement_eq_clause]
  apply Balanced.bind ((balanced_clause hexpr).mono (Nat.zero_le 1))
  intro s
  exact (balanced_skip passes).bind fun _ => balanced_pure _

theorem balanced_block : Balanced 1 (block expr true) := by
  apply Balanced.bind (Balanced.collect ((balanced_statement hexpr).recovering Nat.one_ne_zero))
  intro rounds
  exact balanced_pure _

/-- A body in braces: whatever happens in it, reading goes on behind its closing brace or at the end of
the input. -/
theorem balanced_body {β : Type} {next : Measured (List Stmt) → Parser β}
    (hnext : ∀ body, Balanced 0 (next body)) : Balanced 0 (do
      let _ ← expect .openBrace
      let body ← block expr true
      let _ ← expect .closeBrace
      next body) := by
  intro n _ ts
  -- the brace leads from level `n` to `n + 1`
  refine (contained_expect (m := n + 1) rfl fun _ => .inr rfl).bind fun _ _ rest _ _ => ?_
  -- the body stays there, and never fails
  have inside := balanced_block hexpr (n + 1) (Nat.le_add_left 1 n) rest
  refine (inside.of_ok (total_block expr true rest)).bind fun body _ mid _ run => ?_
  -- where it ends, there is a brace back to level `n`, or nothing any more
  have closes : Kind.closeBrace.guardedLevel? (n + 1) = some n := by simp [Kind.guardedLevel?]
  have atEnd (notClosing : mid.current.kind ≠ .closeBrace) : mid.current.kind = .eof := by
    simpa [inBlock, notClosing] using block_stops run
  refine (contained_expect closes fun notClosing => .inl (atEnd notClosing)).bind
    fun _ _ rest _ _ => ?_
  exact hnext body n (Nat.zero_le n) rest

theorem balanced_fnExpression : Balanced 0 (fnExpression expr) := by
  apply Balanced.bind (balanced_expect fun _ _ => rfl)
  intro token
  apply Balanced.bind (balanced_expect fun _ _ => rfl)
  intro _
  apply balanced_parameters.bind
  intro params
  apply Balanced.bind (balanced_expect fun _ _ => rfl)
  intro _
  apply balanced_body hexpr
  intro body
  exact (balanced_above _).bind fun _ => balanced_pure _

theorem balanced_operand : Balanced 0 (operand expr) := by
  intro n hn ts
  by_cases name : ts.current.kind = .identifier
  · -- the rule looks two tokens ahead, but takes the first of them in any case
    refine (balanced_namedExpression hexpr n hn ts).of_run_eq fun us same => ?_
    have front : us = us.current :: us.advance :=
      Tokens.eq_cons_of_current (by rw [same, name]; decide)
    rw [front]
    exact run_operand_identifier (by rw [same, name])
  · refine Contained.current_bind ?_
    split
    · exact balanced_unaryExpression hexpr _ n hn ts
    · split
      · exact balanced_integerExpression n hn ts
      · exact balanced_booleanExpression true n hn ts
      · exact balanced_booleanExpression false n hn ts
      · exact balanced_groupedExpression hexpr n hn ts
      · rename_i kind
        exact absurd kind name
      · exact balanced_fnExpression hexpr n hn ts
      · exact balanced_fail _ n hn ts
      · exact balanced_fail _ n hn ts

theorem balanced_extend (left : Measured Expr) : Balanced 0 (extend expr left) := by
  apply balanced_current_bind
  intro token
  split
  · rename_i op _
    apply Balanced.bind (balanced_expect fun n _ => op.guardedLevel?_kind n)
    intro token
    apply Balanced.bind (hexpr _)
    intro right
    exact (balanced_above _).bind fun _ => balanced_pure _
  · exact balanced_fail _

theorem balanced_climb (min : Precedence) : Balanced 0 (climb expr min).toParser := by
  apply Balanced.nested
  apply (balanced_operand hexpr).bind
  intro first
  apply Balanced.loop
  intro left
  exact balanced_extend hexpr left

end

/-- Whether it succeeds or not, an expression leaves the number of open braces as it is. -/
theorem balanced_expression (room : Nat) (min : Precedence) :
    Balanced 0 (expression room min).toParser := by
  induction room generalizing min with
  | zero => exact balanced_fail _
  | succ room ih => exact balanced_climb ih min

end Parser

end MonkeySyntax
