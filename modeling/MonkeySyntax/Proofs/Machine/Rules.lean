import MonkeySyntax.Proofs.Machine.Follows

/-!
# The code of the rules

The code of each rule follows the rule (`follows_statement`, `follows_block`, `follows_operand` …), if
calls of the rule for expressions do what the given rule `expr` does; and they do
(`follows_expression`).
-/

namespace MonkeySyntax.Machine

variable {room : Nat}

theorem follows_identifier : Follows room .identifier Parser.identifier :=
  (follows_expect _).bind fun _ => follows_pure _

theorem follows_integerExpression :
    Follows room .integerExpression Parser.integerExpression := by
  apply follows_current.bind
  intro digits
  cases integerValue? digits.literal with
  | none => exact follows_fail _
  | some value => exact (follows_expect _).bind fun _ => follows_pure _

theorem follows_booleanExpression (value : Bool) :
    Follows room (.booleanExpression value) (Parser.booleanExpression value) :=
  (follows_expect _).bind fun _ => follows_pure _

theorem follows_identifierExpression :
    Follows room .identifierExpression Parser.identifierExpression :=
  follows_identifier.bind fun _ => follows_pure _

theorem follows_parameter : Follows room .parameter Parser.parameter := by
  apply follows_identifier.bind
  intro name
  exact (follows_skip _).bind fun _ => follows_pure _

section

variable {expr : Precedence → Rule (Measured Expr)}
  (hexpr : ∀ min, Follows room (.expression min) (expr min).toParser)
include hexpr

/-! ## Statements -/

theorem follows_letStatement : Follows room .letStatement (Parser.letStatement expr) := by
  apply (follows_expect _).bind
  intro token
  apply follows_identifier.bind
  intro name
  apply (follows_expect _).bind
  intro _
  apply (hexpr _).bind
  intro value
  exact (follows_skip _).bind fun _ => follows_pure _

theorem follows_returnStatement :
    Follows room .returnStatement (Parser.returnStatement expr) := by
  apply (follows_expect _).bind
  intro token
  apply (hexpr _).bind
  intro value
  exact (follows_skip _).bind fun _ => follows_pure _

theorem follows_expressionStatement :
    Follows room .expressionStatement (Parser.expressionStatement expr) := by
  apply follows_current.bind
  intro token
  apply (hexpr _).bind
  intro value
  exact (follows_skip _).bind fun _ => follows_pure _

theorem follows_statement : Follows room .statement (Parser.statement expr) := by
  apply follows_current.bind
  intro first
  cases first.kind with
  | letWord => exact follows_letStatement hexpr
  | returnWord => exact follows_returnStatement hexpr
  | _ => exact follows_expressionStatement hexpr

theorem follows_block (inBody : Bool) :
    Follows room (.block inBody) (Parser.block expr inBody) := by
  apply Follows.bind
  · exact Follows.collect ((follows_statement hexpr).recovering inBody)
  · intro rounds
    exact follows_pure _

/-! ## Operands -/

theorem follows_unaryExpression (op : UnaryOp) :
    Follows room (.unaryExpression op) (Parser.unaryExpression expr op) := by
  apply (follows_expect _).bind
  intro token
  apply (hexpr _).bind
  intro operand
  exact (follows_above _).bind fun _ => follows_pure _

theorem follows_groupedExpression :
    Follows room .groupedExpression (Parser.groupedExpression expr) := by
  apply (follows_expect _).bind
  intro _
  apply (hexpr _).bind
  intro inner
  exact (follows_expect _).bind fun _ => follows_pure _

theorem follows_argument : Follows room .argument (Parser.argument expr) := by
  apply (hexpr _).bind
  intro arg
  exact (follows_skip _).bind fun _ => follows_pure _

theorem follows_callExpression :
    Follows room .callExpression (Parser.callExpression expr) := by
  apply follows_identifier.bind
  intro callee
  apply (follows_expect _).bind
  intro _
  apply (Follows.collect (follows_argument hexpr)).bind
  intro args
  apply (follows_expect _).bind
  intro _
  exact (follows_above _).bind fun _ => follows_pure _

theorem follows_fnExpression : Follows room .fnExpression (Parser.fnExpression expr) := by
  apply (follows_expect _).bind
  intro token
  apply (follows_expect _).bind
  intro _
  apply (Follows.collect follows_parameter).bind
  intro params
  apply (follows_expect _).bind
  intro _
  apply (follows_expect _).bind
  intro _
  apply (follows_block hexpr true).bind
  intro body
  apply (follows_expect _).bind
  intro _
  exact (follows_above _).bind fun _ => follows_pure _

theorem follows_operand : Follows room .operand (Parser.operand expr) := by
  apply follows_current.bind
  intro first
  cases UnaryOp.ofKind? first.kind with
  | some op => exact follows_unaryExpression hexpr op
  | none =>
    cases first.kind with
    | integer => exact follows_integerExpression
    | trueWord => exact follows_booleanExpression true
    | falseWord => exact follows_booleanExpression false
    | openParen => exact follows_groupedExpression hexpr
    | identifier =>
      apply follows_following.bind
      intro second
      split
      · exact follows_callExpression hexpr
      · exact follows_identifierExpression
    | fnWord => exact follows_fnExpression hexpr
    | _ => exact follows_fail _

/-! ## Climbing -/

theorem follows_binaryExpression (left : Measured Expr) (op : BinaryOp) :
    Follows room (.binaryExpression left op) (Parser.binaryExpression expr left op) := by
  apply (follows_expect _).bind
  intro token
  apply (hexpr _).bind
  intro right
  exact (follows_above _).bind fun _ => follows_pure _

theorem follows_extend (left : Measured Expr) :
    Follows room (.extend left) (Parser.extend expr left) := by
  apply follows_current.bind
  intro token
  cases BinaryOp.ofKind? token.kind with
  | some op => exact follows_binaryExpression hexpr left op
  | none => exact follows_fail _

theorem follows_climb (min : Precedence) : Follows room (.climb min) (do
    let first ← Parser.operand expr
    Parser.operators expr min first) :=
  (follows_operand hexpr).bind fun first => Follows.repeatWhile (follows_extend hexpr) first

/-- With one expression more to be opened, a call of the rule for expressions climbs. -/
theorem follows_call (min : Precedence) :
    Follows (room + 1) (.expression min) (Parser.climb expr min).toParser := by
  intro ρ k s valid depth
  have lessOpen : ¬maxOpen ≤ s.depth := by omega
  have opened : State.Valid { s with depth := s.depth + 1 } :=
    ⟨valid.endsOnce, valid.inside, Nat.lt_of_not_le lessOpen⟩
  have depth' : s.depth + 1 + room = maxOpen := by omega
  obtain ⟨s', peaks, after⟩ := follows_climb hexpr min ρ (.close k) _ opened depth'
  -- the call is counted while it runs, and no longer when it is back
  have call : step (.run (.expression min) k s) =
      .goes (.run (.climb min) (.close k) { s with depth := s.depth + 1 }) := by
    rw [step, stepRun, if_neg lessOpen]
  have close (result : Except ParseError (Measured Expr)) :
      step (.back result (.close k) s') = .goes (.back result k { s' with depth := s.depth }) := by
    rw [step, stepBack, after.depth]
    rfl
  refine ⟨{ s' with depth := s.depth }, ?_, ?_, after.tokens, after.rest, rfl, after.errors⟩
  · -- what is open in the call is open besides the expression that is called
    have inside := peaks.tail (close _) (after.depth ▸ Nat.le_add_right s.depth 1)
    rw [Nat.add_right_comm] at inside
    exact inside.head call (Nat.le_add_right s.depth _)
  · exact ⟨after.valid.endsOnce, after.valid.inside, Nat.le_of_lt (Nat.lt_of_not_le lessOpen)⟩

end

/-- Calls of the rule for expressions do what the rule does, whatever room there is. -/
theorem follows_expression (room : Nat) (min : Precedence) :
    Follows room (.expression min) (Parser.expression room min).toParser := by
  induction room generalizing min with
  | zero =>
    intro ρ k s valid depth
    have full : maxOpen ≤ s.depth := by omega
    refine .single ?_ (.refl valid) rfl
    rw [step, stepRun, if_pos full]
    rfl
  | succ room ih => exact follows_call ih min

end MonkeySyntax.Machine
