import MonkeySyntax.Proofs.Braces
import MonkeySyntax.Proofs.Parser.Blames
import MonkeySyntax.Proofs.Parser.Rules

/-!
# The rules tell the truth about tokens

* `blaming_expression`, `blaming_statement` — what an expression or a statement records blames tokens
  of its own, and what stops it is about the token it stopped at.
* `blames_rounds` — so does a block. The token it ends at may have been blamed by its last statement,
  but if that is a closing brace it is taken next, and so by no other rule.
-/

namespace MonkeySyntax

/-- Recovery drops the token it starts at, unless that is the end of the input or the `}` of the body
around it. -/
theorem Tokens.resume_suffix_advance {inBody : Bool} {ts : Tokens}
    (notAtEnd : ts.current.kind ≠ .eof)
    (notClosing : ¬(inBody = true ∧ ts.current.kind = .closeBrace)) (braces : Nat) :
    ts.resume inBody braces <:+ ts.advance := by
  have shorter := length_resume_lt notAtEnd notClosing braces
  have further := resume_suffix inBody braces ts
  refine List.suffix_of_suffix_length_le further ts.advance_suffix ?_
  have front : ts.length = ts.advance.length + 1 := by
    rw [← List.length_cons, ← eq_cons_of_current notAtEnd]
  omega

namespace Parser

variable {α β : Type}

/-! ## Rules without expressions in them -/

theorem blaming_identifier : Blaming 0 identifier :=
  (blaming_expect _).bind fun _ => blaming_pure _

/-- A numeral without a value denotes a number above the largest integer. -/
theorem blamesFrom_integerExpression {ts : Tokens} (lexical : ts.Lexical)
    (integer : ts.current.kind = .integer) : (integerExpression.run ts).BlamesFrom 0 ts := by
  rw [integerExpression, run_current_bind]
  split
  · rename_i outOfRange
    refine blamesFrom_error ⟨integer, rfl, Nat.lt_of_not_le fun small => ?_⟩
    have isNumeral := lexical.current.isNumeral integer
    have inRange := integerValue?_eq_some_iff.mpr ⟨isNumeral, rfl, small⟩
    rw [outOfRange] at inRange
    cases inRange
  · exact (blaming_expect _).bind (fun _ => blaming_pure _) ts lexical

theorem blaming_booleanExpression (value : Bool) : Blaming 0 (booleanExpression value) :=
  (blaming_expect _).bind fun _ => blaming_pure _

theorem blaming_parameters :
    Blaming 0 (collect inParens parameter (consumes_parameter.progresses _)) :=
  Blaming.collect (blaming_identifier.bind fun _ => (blaming_skip _).bind fun _ => blaming_pure _)

section

variable {expr : Precedence → Rule (Measured Expr)}
  (hexpr : ∀ min, Blaming 0 (expr min).toParser)
include hexpr

/-! ## Statements -/

theorem blaming_clause : Blaming 0 (clause expr) := by
  apply blaming_current_bind
  intro first
  split
  · apply (blaming_expect _).bind
    intro token
    apply blaming_identifier.bind
    intro name
    apply (blaming_expect _).bind
    intro _
    exact (hexpr _).bind fun _ => blaming_pure _
  · apply (blaming_expect _).bind
    intro token
    exact (hexpr _).bind fun _ => blaming_pure _
  · apply blaming_current_bind
    intro token
    exact (hexpr _).bind fun _ => blaming_pure _

theorem blaming_statement : Blaming 0 (statement expr) := by
  rw [statement_eq_clause]
  apply (blaming_clause hexpr).bind
  intro s
  exact (blaming_skip _).bind fun _ => blaming_pure _

/-- A round of a block goes on behind the token that it blames last, unless the block ends at this
token. -/
theorem blames_statementOrSkip {inBody : Bool} {ts rest : Tokens} (lexical : ts.Lexical)
    {o : Option (Measured Stmt)} {recorded : List ParseError} {reach : Nat}
    (run : (statementOrSkip expr inBody).run ts = ⟨.ok o, recorded, rest, reach⟩) :
    (∃ n, Blames n recorded ts rest ∧ n + rest.openBraces ≤ ts.openBraces) ∨
      (inBlock inBody rest.current.kind = false ∧
        ∃ n, Blames n recorded ts rest.advance ∧ n + rest.openBraces ≤ ts.openBraces + 1) := by
  have first := blaming_statement hexpr ts lexical
  unfold statementOrSkip recovering at run
  dsimp only at run
  split at run
  · rename_i s recorded rest reach taken
    cases run
    rw [taken] at first
    obtain ⟨n, blames, budget, -⟩ := first
    exact .inl ⟨n, blames, budget⟩
  · rename_i e recorded us reach stopped
    cases run
    rw [stopped] at first
    obtain ⟨n, blames, budget, isTrue⟩ := first
    dsimp only at blames budget isTrue
    have isTrue : e.TrueOf us.current := isTrue e rfl
    by_cases atEnd : us.current.kind = .eof
    · -- the end of the input is blamed once more, and nothing can be dropped
      have stays : us.resume inBody 0 = us := Tokens.resume_of_eof inBody atEnd
      rw [stays, Tokens.advance_of_eof atEnd]
      refine .inr ⟨by simp [inBlock, atEnd], n + 1, blames.recordAtEnd isTrue atEnd, ?_⟩
      omega
    · have recorded := blames.record isTrue atEnd
      by_cases closing : inBody = true ∧ us.current.kind = .closeBrace
      · -- the closing brace is left to the body
        have stays : us.resume inBody 0 = us := by
          rw [closing.1]
          exact Tokens.resume_of_closeBrace closing.2
        rw [stays]
        refine .inr ⟨by simp [inBlock, closing], n, recorded, ?_⟩
        omega
      · -- the token that is blamed is dropped
        have dropped := Tokens.resume_suffix_advance atEnd closing 0
        have fewer := Tokens.openBraces_le (Tokens.resume_suffix inBody 0 us)
        refine .inl ⟨n, recorded.dropping dropped, ?_⟩
        omega

/-- A block ends at a token that it may have blamed last. -/
theorem blames_rounds {inBody : Bool} {ts rest : Tokens} (lexical : ts.Lexical)
    {os : List (Option (Measured Stmt))} {recorded : List ParseError} {reach : Nat}
    (run : (rounds expr inBody).run ts = ⟨.ok os, recorded, rest, reach⟩) :
    ∃ n, Blames n recorded ts rest.advance ∧ n + rest.openBraces ≤ ts.openBraces + 1 := by
  induction hn : ts.length using Nat.strongRecOn generalizing ts os recorded reach with
  | ind n ih =>
    cases goesOn : inBlock inBody ts.current.kind with
    | false =>
      rw [rounds, run_collect, if_neg (Bool.eq_false_iff.mp goesOn)] at run
      cases run
      refine ⟨0, .nothing (Tokens.advance_suffix _), ?_⟩
      omega
    | true =>
      obtain ⟨o, recorded₁, mid, reach₁, round⟩ :=
        Total.exists_run (total_recovering (statement expr) _ (Tokens.resume_suffix inBody 0)) ts
      have whole := run_collect_of_item (progresses_statementOrSkip expr inBody) goesOn round
      obtain ⟨os', recorded₂, rest', reach₂, later⟩ := (total_rounds expr inBody).exists_run mid
      rw [rounds] at run later
      rw [run, later] at whole
      cases whole
      have further : mid <:+ ts := by
        have dropped := (statementOrSkip expr inBody).rest_suffix ts
        rwa [statementOrSkip, round] at dropped
      rcases blames_statementOrSkip hexpr lexical round with ⟨k, blames, budget⟩ | ⟨stops, last⟩
      · have shorter : mid.length < n := by
          have less := progresses_statementOrSkip expr inBody ts o goesOn
          rw [statementOrSkip, round] at less
          exact hn ▸ less rfl
        obtain ⟨m, blames', budget'⟩ := ih _ shorter (lexical.suffix further) later rfl
        refine ⟨k + m, blames.append blames', ?_⟩
        omega
      · -- there is no other round behind this one
        rw [run_collect, if_neg (Bool.eq_false_iff.mp stops)] at later
        cases later
        rwa [List.append_nil]

theorem blames_block {inBody : Bool} {ts rest : Tokens} (lexical : ts.Lexical)
    {body : Measured (List Stmt)} {recorded : List ParseError} {reach : Nat}
    (run : (block expr inBody).run ts = ⟨.ok body, recorded, rest, reach⟩) :
    ∃ n, Blames n recorded ts rest.advance ∧ n + rest.openBraces ≤ ts.openBraces + 1 := by
  obtain ⟨os, recorded', rest', reach', loops⟩ := (total_rounds expr inBody).exists_run ts
  rw [block, run_bind, ← rounds, loops, Outcome.andThen_ok] at run
  cases run
  rw [run_pure, List.append_nil]
  exact blames_rounds hexpr lexical loops

/-- A body in braces. Its closing brace may have been blamed inside it, and is taken without being
blamed again. If it is missing, that is one more error about the end of the input, for which the
opening brace pays. -/
theorem blaming_body {next : Measured (List Stmt) → Parser β} (hnext : ∀ body, Blaming 0 (next body)) :
    Blaming 0 (do
      let _ ← expect .openBrace
      let body ← block expr true
      let _ ← expect .closeBrace
      next body) := by
  refine Blaming.openBrace_bind fun _ ts lexical => ?_
  obtain ⟨body, recorded, rest, reach, run⟩ := (total_block expr true).exists_run ts
  obtain ⟨n, blames, budget⟩ := blames_block hexpr lexical run
  rw [run_bind, run, Outcome.andThen_ok, run_bind, run_expect]
  split
  · have behind : (⟨.ok body, recorded, rest.advance, reach⟩ : Outcome _).BlamesFrom 1 ts := by
      refine ⟨n, blames, ?_, fun e failed => by cases failed⟩
      have fewer := Tokens.openBraces_le rest.advance_suffix
      dsimp only
      omega
    have further : rest.advance <:+ ts := blames.suffix
    have whole := behind.andThen fun body _ => hnext body _ (lexical.suffix further)
    simpa using whole
  · rename_i notClosing
    have atEnd : rest.current.kind = .eof := by simpa [inBlock, notClosing] using block_stops run
    rw [Tokens.advance_of_eof atEnd] at blames
    refine ⟨n, by simpa using blames, budget, fun e failed => ?_⟩
    cases failed
    exact ParseError.trueOf_unexpected notClosing

/-! ## Operands -/

theorem blaming_unaryExpression (op : UnaryOp) : Blaming 0 (unaryExpression expr op) := by
  apply (blaming_expect _).bind
  intro token
  apply (hexpr _).bind
  intro operand
  exact (blaming_above _).bind fun _ => blaming_pure _

theorem blaming_groupedExpression : Blaming 0 (groupedExpression expr) := by
  apply (blaming_expect _).bind
  intro _
  apply (hexpr _).bind
  intro inner
  exact (blaming_expect _).bind fun _ => blaming_pure _

theorem blaming_arguments : Blaming 0 (arguments expr) := by
  apply Blaming.collect
  apply (hexpr _).bind
  intro arg
  exact (blaming_skip _).bind fun _ => blaming_pure _

theorem blaming_callExpression : Blaming 0 (callExpression expr) := by
  apply blaming_identifier.bind
  intro callee
  apply (blaming_expect _).bind
  intro _
  apply (blaming_arguments hexpr).bind
  intro args
  apply (blaming_expect _).bind
  intro _
  exact (blaming_above _).bind fun _ => blaming_pure _

theorem blaming_fnExpression : Blaming 0 (fnExpression expr) := by
  apply (blaming_expect _).bind
  intro token
  apply (blaming_expect _).bind
  intro _
  apply blaming_parameters.bind
  intro params
  apply (blaming_expect _).bind
  intro _
  apply blaming_body hexpr
  intro body
  exact (blaming_above _).bind fun _ => blaming_pure _

theorem blaming_operand : Blaming 0 (operand expr) := by
  intro ts lexical
  rw [operand, run_current_bind]
  split
  · exact blaming_unaryExpression hexpr _ ts lexical
  · rename_i noUnary
    split
    · rename_i integer
      exact blamesFrom_integerExpression lexical integer
    · exact blaming_booleanExpression true ts lexical
    · exact blaming_booleanExpression false ts lexical
    · exact blaming_groupedExpression hexpr ts lexical
    · rw [run_following_bind]
      split
      · exact blaming_callExpression hexpr ts lexical
      · exact (blaming_identifier.bind fun _ => blaming_pure _) ts lexical
    · exact blaming_fnExpression hexpr ts lexical
    · rename_i illegal
      exact blamesFrom_error ⟨illegal, rfl⟩
    · -- no kind that starts an operand is left
      refine blamesFrom_error ⟨rfl, by assumption, ?_⟩
      cases kind : ts.current.kind <;> simp_all [Kind.startsOperand, UnaryOp.ofKind?]

/-! ## Climbing -/

/-- Where the loop over the operators goes on, there is an operator. -/
theorem blaming_operators (min : Precedence) (left : Measured Expr) :
    Blaming 0 (operators expr min left) := by
  apply Blaming.loop
  intro left ts lexical goesOn
  obtain ⟨op, isOp⟩ := Option.isSome_iff_exists.mp (isSome_ofKind?_of_climbs goesOn)
  have behind : Blaming 0 (binaryExpression expr left op) := by
    apply (blaming_expect _).bind
    intro token
    apply (hexpr _).bind
    intro right
    exact (blaming_above _).bind fun _ => blaming_pure _
  rw [extend, run_current_bind, isOp]
  exact behind ts lexical

theorem blaming_climb (min : Precedence) : Blaming 0 (climb expr min).toParser := by
  apply Blaming.nested
  apply (blaming_operand hexpr).bind
  intro first
  exact blaming_operators hexpr min first

end

theorem blaming_expression (room : Nat) (min : Precedence) :
    Blaming 0 (expression room min).toParser := by
  induction room generalizing min with
  | zero => exact fun _ _ => blamesFrom_error rfl
  | succ room ih => exact blaming_climb ih min

end Parser

end MonkeySyntax
