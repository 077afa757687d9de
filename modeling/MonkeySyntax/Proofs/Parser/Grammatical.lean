import MonkeySyntax.Proofs.Parser.Recognizes
import MonkeySyntax.Proofs.Parser.Rules

/-!
# The rules are grammatical

Each rule of the parser recognizes the sentences of its nonterminal. The rules climb and the grammar
does not, so what one expression of the parser takes may be less than what the grammar makes of the
same tokens; but it always is an expression, and so is what is appended to it.

* `recognizes_expression` — expressions, with any room.
* `recognizes_block` — statements, with or without braces around them.
-/

namespace MonkeySyntax.Parser

section

variable {α : Type} {F : Tokens → Prop} [Satisfiable F]

theorem recognizes_identifier_bind {next : Ident → Parser α} (h : ∀ name, Recognizes F (next name)) :
    Recognizes (Starts .identifier F) (identifier >>= next) := by
  unfold identifier
  rw [bind_assoc]
  refine recognizes_expect_bind (by decide) fun t => ?_
  rw [pure_bind]
  exact h _

/-- The rule for integers is only reached at an integer. -/
theorem recognizesAt_integerExpression {ts : Tokens} (kind : ts.current.kind = .integer) :
    RecognizesAt (Derives .expression) integerExpression ts := by
  refine RecognizesAt.current_bind ?_
  split
  · exact recognizesAt_fail ⟨kind, rfl⟩
  · rename_i value denotes
    obtain ⟨-, rfl, small⟩ := integerValue?_eq_some_iff.mp denotes
    have front : ts = [ts.current] ++ ts.advance := Tokens.eq_cons_of_current (by simp [kind])
    refine .takes [ts.current] ts.advance ⟨.int ts.current (decimal ts.current.literal), 0⟩ 0 front ?_
      fun us _ => ?_
    · exact BeginsPrimary.derives (.integer kind small rfl)
    · rw [List.singleton_append, run_bind, run_expect_cons kind (by decide)]
      rfl

theorem recognizes_booleanExpression (value : Bool) :
    Recognizes (Derives .expression) (booleanExpression value) := by
  have word : Recognizes (Starts (if value then .trueWord else .falseWord) Ends)
      (booleanExpression value) :=
    recognizes_expect_bind (by cases value <;> decide) fun _ => recognizes_pure _
  refine word.mono fun c h => ?_
  cases value with
  | true => exact BeginsPrimary.derives (.trueWord h)
  | false => exact BeginsPrimary.derives (.falseWord h)

theorem recognizes_parameters :
    Recognizes (Derives .parameters) (collect inParens parameter (consumes_parameter.progresses _)) := by
  have item : Recognizes (Starts .identifier (Optionally .comma Ends)) parameter :=
    recognizes_identifier_bind fun _ => recognizes_skip_bind (by decide) (recognizes_pure _)
  exact item.collect .noParameters fun _ _ => Starts.cons_parameters

end

section

variable {expr : Precedence → Rule (Measured Expr)}
  (hexpr : ∀ min, Recognizes (Derives .expression) (expr min).toParser)
include hexpr

theorem recognizes_unaryExpression (op : UnaryOp) :
    Recognizes (Derives .expression) (unaryExpression expr op) := by
  have signed : Recognizes (Starts op.kind (Begins .expression Ends)) (unaryExpression expr op) := by
    refine recognizes_expect_bind op.kind_ne_eof fun token => ?_
    refine (hexpr _).begins fun operand => ?_
    exact recognizes_above_bind fun _ => recognizes_pure _
  refine signed.mono ?_
  rintro _ ⟨t, c, rfl, kind, h⟩
  exact (begins_ends_iff.mp h).sign_expression kind

theorem recognizes_groupedExpression :
    Recognizes (Derives .expression) (groupedExpression expr) := by
  have inParens : Recognizes (Starts .openParen (Begins .expression (Starts .closeParen Ends)))
      (groupedExpression expr) := by
    refine recognizes_expect_bind (by decide) fun _ => ?_
    refine (hexpr _).begins fun inner => ?_
    exact recognizes_expect_bind (by decide) fun _ => recognizes_pure _
  exact inParens.mono fun c h => BeginsPrimary.derives (.grouped h)

theorem recognizes_arguments : Recognizes (Derives .arguments) (arguments expr) := by
  have item : Recognizes (Begins .expression (Optionally .comma Ends)) (argument expr) :=
    (hexpr _).begins fun arg => recognizes_skip_bind (by decide) (recognizes_pure _)
  exact item.collect .noArguments fun _ _ => Begins.cons_arguments

theorem recognizes_namedExpression :
    Recognizes (Derives .expression) (namedExpression expr) := by
  let behind (ts : Tokens) : Prop :=
    Ends ts ∨ Starts .openParen (Begins .arguments (Starts .closeParen Ends)) ts
  have : Satisfiable behind := ⟨[], .inl rfl⟩
  have named : Recognizes (Starts .identifier behind) (namedExpression expr) := by
    refine recognizes_identifier_bind fun name => fun ts => RecognizesAt.current_bind ?_
    split
    · have call : Recognizes (Starts .openParen (Begins .arguments (Starts .closeParen Ends))) (do
          let _ ← expect .openParen
          let args ← arguments expr
          let _ ← expect .closeParen
          let height ← above (Measured.highest args)
          return (⟨.call name (args.map Measured.value), height⟩ : Measured Expr)) := by
        refine recognizes_expect_bind (by decide) fun _ => ?_
        refine (recognizes_arguments hexpr).begins fun args => ?_
        refine recognizes_expect_bind (by decide) fun _ => ?_
        exact recognizes_above_bind fun _ => recognizes_pure _
      exact call.mono (fun _ => .inr) ts
    · exact (recognizes_pure _).mono (fun _ => .inl) ts
  refine named.mono ?_
  rintro _ ⟨t, c, rfl, kind, ends | args⟩
  · exact BeginsPrimary.derives (.name ⟨t, c, rfl, kind, ends⟩)
  · exact BeginsPrimary.derives (.call ⟨t, c, rfl, kind, args⟩)

theorem recognizes_clause : Recognizes (Derives .clause) (clause expr) := by
  have all : Recognizes (Begins .clause Ends) (clause expr) := by
    intro ts
    refine RecognizesAt.current_bind ?_
    split
    · have binding : Recognizes (Starts .letWord (Starts .identifier (Starts .assignment
          (Begins .expression Ends)))) (do
            let token ← expect .letWord
            let name ← identifier
            let _ ← expect .assignment
            let value ← (expr .lowest).toParser
            return (⟨.binding token name value.value, value.height⟩ : Measured Stmt)) := by
        refine recognizes_expect_bind (by decide) fun token => ?_
        refine recognizes_identifier_bind fun name => ?_
        refine recognizes_expect_bind (by decide) fun _ => ?_
        exact (hexpr _).begins fun value => recognizes_pure _
      exact binding.mono (fun _ h => begins_clause_iff.mpr (.inl h)) ts
    · have ret : Recognizes (Starts .returnWord (Begins .expression Ends)) (do
          let token ← expect .returnWord
          let value ← (expr .lowest).toParser
          return (⟨.ret token value.value, value.height⟩ : Measured Stmt)) := by
        refine recognizes_expect_bind (by decide) fun token => ?_
        exact (hexpr _).begins fun value => recognizes_pure _
      exact ret.mono (fun _ h => begins_clause_iff.mpr (.inr (.inl h))) ts
    · refine RecognizesAt.current_bind ?_
      have bare := (hexpr .lowest).begins fun value =>
        recognizes_pure (⟨.expr ts.current value.value, value.height⟩ : Measured Stmt)
      exact bare.mono (fun _ h => begins_clause_iff.mpr (.inr (.inr h))) ts
  exact all.mono fun _ => begins_ends_iff.mp

/-- Statements, with or without braces around them. -/
theorem recognizes_block (inBody : Bool) :
    Recognizes (Derives .statements) (block expr inBody) := by
  have item : Recognizes (Begins .clause (Optionally .semicolon Ends)) (statement expr) := by
    rw [statement_eq_clause]
    exact (recognizes_clause hexpr).begins fun s =>
      recognizes_skip_bind (by decide) (recognizes_pure s)
  exact (item.recovering.collect .noStatements fun _ _ => Begins.cons_statements).map _

theorem recognizes_fnExpression : Recognizes (Derives .expression) (fnExpression expr) := by
  have word : Recognizes (Starts .fnWord (Starts .openParen (Begins .parameters (Starts .closeParen
      (Starts .openBrace (Begins .statements (Starts .closeBrace Ends))))))) (fnExpression expr) := by
    refine recognizes_expect_bind (by decide) fun token => ?_
    refine recognizes_expect_bind (by decide) fun _ => ?_
    refine recognizes_parameters.begins fun params => ?_
    refine recognizes_expect_bind (by decide) fun _ => ?_
    refine recognizes_expect_bind (by decide) fun _ => ?_
    refine (recognizes_block hexpr true).begins fun body => ?_
    refine recognizes_expect_bind (by decide) fun _ => ?_
    exact recognizes_above_bind fun _ => recognizes_pure _
  exact word.mono fun c h => BeginsPrimary.derives (.function h)

theorem recognizes_operand : Recognizes (Derives .expression) (operand expr) := by
  intro ts
  by_cases name : ts.current.kind = .identifier
  · -- the rule looks two tokens ahead, but takes the first of them in any case
    refine (recognizes_namedExpression hexpr ts).of_run_eq fun us same => ?_
    have front : us = us.current :: us.advance :=
      Tokens.eq_cons_of_current (by rw [same, name]; decide)
    rw [front]
    exact run_operand_identifier (by rw [same, name])
  · refine RecognizesAt.current_bind ?_
    split
    · exact recognizes_unaryExpression hexpr _ ts
    · split
      · exact recognizesAt_integerExpression ‹_›
      · exact recognizes_booleanExpression true ts
      · exact recognizes_booleanExpression false ts
      · exact recognizes_groupedExpression hexpr ts
      · rename_i kind
        exact absurd kind name
      · exact recognizes_fnExpression hexpr ts
      · exact recognizesAt_fail ⟨‹_›, rfl⟩
      · exact recognizesAt_fail rfl

theorem recognizes_extend (left : Measured Expr) :
    Recognizes (Derives .operators) (extend expr left) := by
  intro ts
  refine RecognizesAt.current_bind ?_
  split
  · rename_i op _
    have sign : Recognizes (Starts op.kind (Begins .expression Ends))
        (binaryExpression expr left op) := by
      refine recognizes_expect_bind op.kind_ne_eof fun token => ?_
      refine (hexpr _).begins fun right => ?_
      exact recognizes_above_bind fun _ => recognizes_pure _
    refine sign.mono ?_ ts
    rintro _ ⟨t, c, rfl, kind, h⟩
    exact (begins_ends_iff.mp h).operator_expression kind
  · exact recognizesAt_fail rfl

theorem recognizes_climb (min : Precedence) :
    Recognizes (Derives .expression) (climb expr min).toParser := by
  have chain (first : Measured Expr) : Recognizes (Derives .operators) (operators expr min first) :=
    Recognizes.loop (recognizes_extend hexpr) .noOperators
      (fun _ _ h later => h.operators_append_operators later) first
  refine Recognizes.nested ?_
  exact (recognizes_operand hexpr).bind chain fun _ _ h later => h.operators_append later

end

/-- Expressions, with any room. -/
theorem recognizes_expression (room : Nat) (min : Precedence) :
    Recognizes (Derives .expression) (expression room min).toParser := by
  induction room generalizing min with
  | zero => exact fun _ => .tooDeep rfl
  | succ room ih => exact recognizes_climb ih min

end MonkeySyntax.Parser
