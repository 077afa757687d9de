import MonkeySyntax.Proofs.Containment
import MonkeySyntax.Proofs.Parser.Room
import MonkeySyntax.Proofs.Tree.Written

/-!
# Function bodies

`parse_functionBody` — a source in which braces are matched is parsed in the body of a function as it is
on its own: the same statements are kept and the same errors are recorded. So an error in a body takes
nothing from behind its closing brace, and does not reach the brace either.

Each round of the loop over statements ends at the same place in both (`exists_run_round_matched`), since
the only brace that tells a body from a whole source is never seen by them.
-/

namespace MonkeySyntax

namespace Parser

open Tokens

section

variable {expr : Precedence → Rule (Measured Expr)} {ts : Tokens} {t : Token}
  (level : strictLevel? 0 ts = some 0)
include level

theorem skipping_matched (semicolon : t.kind = .semicolon) :
    ∃ go, MatchedBoundary ts t go ∧
      ∀ us, Tokens.skipping .semicolon (ts ++ t :: us) = go us := by
  cases ts with
  | nil => exact ⟨id, .behind, fun us => Tokens.skipping_cons (by decide) semicolon us⟩
  | cons u ts =>
    by_cases here : u.kind = .semicolon
    · have level' : strictLevel? 0 ts = some 0 := by
        rw [strictLevel?_cons, here] at level
        exact level
      exact ⟨_, .before (List.suffix_cons u ts) level', fun us =>
        Tokens.skipping_cons (by decide) here (ts ++ t :: us)⟩
    · have stays (us : Tokens) (other : us.current.kind ≠ .semicolon) :
          us.skipping .semicolon = us := Tokens.skipping_of_ne other
      exact ⟨_, .before (List.suffix_refl _) level, fun us => stays (u :: ts ++ t :: us) here⟩

variable (hexpr : ∀ min, Balanced 0 (expr min).toParser) (notEof : ∀ u ∈ ts, u.kind ≠ .eof)
include hexpr notEof

/-- One round of the loop over statements ends at the same boundary in a body and at top level. -/
theorem exists_run_round_matched (semicolon : t.kind = .semicolon) :
    ∃ o recorded reach go, MatchedBoundary ts t go ∧ ∀ inBody us,
      (statementOrSkip expr inBody).run (ts ++ t :: us) = ⟨.ok o, recorded, go us, reach⟩ := by
  obtain ⟨result, recorded, reach, c, ts', rfl, guarded, run⟩ :=
    exists_run_clause hexpr (braceLevel_of_strictLevel? level) notEof semicolon
  have level' : strictLevel? 0 ts' = some 0 := by
    rwa [strictLevel?_append, strictLevel?_of_guardedLevel? guarded] at level
  have further : ts' <:+ c ++ ts' := List.suffix_append c ts'
  cases result with
  | ok m =>
    obtain ⟨go, boundary, skipped⟩ := skipping_matched level' semicolon
    refine ⟨some m, recorded, reach, go, boundary.mono further, fun inBody us => ?_⟩
    exact run_statementOrSkip_of_ok (run us) (skipped us)
  | error e =>
    have notEof' : ∀ u ∈ ts', u.kind ≠ .eof := fun u hu => notEof u (further.subset hu)
    obtain ⟨go, boundary, resumed⟩ := resume_matched level' notEof' semicolon
    refine ⟨none, recorded ++ [e], reach, go, boundary.mono further, fun inBody us => ?_⟩
    exact run_statementOrSkip_of_error (run us) (resumed inBody us)

/-- The loop over statements comes past a `;` in the same rounds in a body and at top level. -/
theorem exists_run_rounds_matched (semicolon : t.kind = .semicolon) :
    ∃ done recorded reach, ∀ inBody us,
      (rounds expr inBody).run (ts ++ t :: us) =
        let later := (rounds expr inBody).run us
        ⟨later.result.map (done ++ ·), recorded ++ later.recorded, later.rest,
          max reach later.reach⟩ := by
  let sort (ts : Tokens) : Prop := strictLevel? 0 ts = some 0 ∧ ∀ u ∈ ts, u.kind ≠ .eof
  have goesOn (ts : Tokens) (h : sort ts) (inBody : Bool) (us : Tokens) :
      inBlock inBody (ts ++ t :: us : Tokens).current.kind = true := by
    cases ts with
    | nil => rw [List.nil_append, current_cons, semicolon]; cases inBody <;> rfl
    | cons u ts =>
      have here := h.2 u List.mem_cons_self
      -- the first brace of matched ones is not a closing one
      have notClosing : u.kind ≠ .closeBrace := by
        intro closing
        have unmatched := h.1
        rw [strictLevel?_cons, closing] at unmatched
        cases unmatched
      simp [inBlock, here, notClosing]
  have round (ts : Tokens) (h : sort ts) : ∃ o recorded reach go,
      (go = id ∨ ∃ ts', sort ts' ∧ go = fun us => ts' ++ t :: us) ∧
      ∀ inBody, True → ∀ us, (statementOrSkip expr inBody).run (ts ++ t :: us) =
        ⟨.ok o, recorded, go us, reach⟩ := by
    obtain ⟨o, recorded, reach, go, boundary, run⟩ :=
      exists_run_round_matched h.1 hexpr h.2 semicolon
    refine ⟨o, recorded, reach, go, ?_, fun inBody _ => run inBody⟩
    cases boundary with
    | behind => exact .inl rfl
    | @before ts' further level' =>
      exact .inr ⟨ts', ⟨level', fun u hu => h.2 u (further.subset hu)⟩, rfl⟩
  have here : sort ts := ⟨level, notEof⟩
  obtain ⟨done, recorded, reach, run⟩ := exists_run_rounds_of (fun _ => True) trivial
    (fun ts h inBody _ => goesOn ts h inBody) round here
  exact ⟨done, recorded, reach, fun inBody => run inBody trivial⟩

/-- Tokens that end with a `;` are read in the same rounds in a body and at top level, where there is
nothing behind them to be read. -/
theorem exists_run_rounds_body (ends : ∀ t ∈ ts.getLast?, t.kind = .semicolon) :
    ∃ done recorded reach, ∀ inBody us, inBlock inBody us.current.kind = false →
      (rounds expr inBody).run (ts ++ us) = ⟨.ok done, recorded, us, reach⟩ := by
  have stopped (inBody : Bool) (us : Tokens) (h : inBlock inBody us.current.kind = false) :
      (rounds expr inBody).run us = ⟨.ok [], [], us, 0⟩ := by
    rw [rounds, run_collect, if_neg (Bool.eq_false_iff.mp h)]
    rfl
  rcases List.eq_nil_or_concat ts with rfl | ⟨ts', t, rfl⟩
  · exact ⟨[], [], 0, fun inBody us h => stopped inBody us h⟩
  · have semicolon : t.kind = .semicolon := ends t (by simp)
    have level' : strictLevel? 0 ts' = some 0 := by
      rw [List.concat_eq_append, strictLevel?_append, Option.bind_eq_some_iff] at level
      obtain ⟨k, first, last⟩ := level
      rw [strictLevel?_cons, semicolon] at last
      cases last
      exact first
    have notEof' : ∀ u ∈ ts', u.kind ≠ .eof := fun u hu => notEof u (by simp [hu])
    obtain ⟨done, recorded, reach, run⟩ :=
      exists_run_rounds_matched level' hexpr notEof' semicolon
    refine ⟨done, recorded, reach, fun inBody us h => ?_⟩
    rw [List.concat_eq_append, List.append_assoc, List.singleton_append, run inBody us,
      stopped inBody us h]
    simp [Except.map]

end

/-! ## A function around a body -/

/-- The tokens of a function without parameters. -/
def functionTokens (body rest : Tokens) : Tokens :=
  Kind.fnWord.token :: Kind.openParen.token :: Kind.closeParen.token :: Kind.openBrace.token ::
    (body ++ Kind.closeBrace.token :: rest)

theorem run_expect_token_bind {β : Type} {kind : Kind} (notEof : kind ≠ .eof)
    (next : Token → Parser β) (ts : Tokens) :
    (expect kind >>= next).run (kind.token :: ts) = (next kind.token).run ts := by
  rw [run_bind, run_expect_cons kind.kind_token notEof, Outcome.andThen_ok]
  simp

section

variable {expr : Precedence → Rule (Measured Expr)} {ts rest : Tokens}
  {body : Measured (List Stmt)} {recorded : List ParseError} {reach : Nat}

/-- The rule for functions reads the body and the brace behind it, and gives a function if its height is
within the limit. -/
theorem run_fnExpression_functionTokens
    (run : (block expr true).run (ts ++ Kind.closeBrace.token :: rest) =
      ⟨.ok body, recorded, Kind.closeBrace.token :: rest, reach⟩) :
    (fnExpression expr).run (functionTokens ts rest) =
      (⟨.ok body, recorded, rest, reach⟩ : Outcome _).andThen fun body rest =>
        (do
          let height ← above body.height
          return ⟨.fn Kind.fnWord.token [] body.value, height⟩ : Parser (Measured Expr)).run rest := by
  have noParams (us : Tokens) :
      (collect inParens parameter (consumes_parameter.progresses _)).run
        (Kind.closeParen.token :: us) = ⟨.ok [], [], Kind.closeParen.token :: us, 0⟩ := by
    rw [run_collect]
    rfl
  rw [functionTokens, fnExpression, run_expect_token_bind (by decide),
    run_expect_token_bind (by decide), run_bind, noParams, Outcome.andThen_ok,
    run_expect_token_bind (by decide), run_expect_token_bind (by decide), run_bind, run,
    Outcome.andThen_ok, run_expect_token_bind (by decide)]
  simp

/-- Alone in front of the end of the input, the function is a statement. -/
theorem run_clause_functionTokens
    (run : (block expr true).run (ts ++ [Kind.closeBrace.token, Token.eof]) =
      ⟨.ok body, recorded, [Kind.closeBrace.token, Token.eof], reach⟩) :
    (∃ m reach', m.value = .expr Kind.fnWord.token (.fn Kind.fnWord.token [] body.value) ∧
      (clause (climb expr)).run (functionTokens ts [Token.eof]) =
        ⟨.ok m, recorded, [Token.eof], reach'⟩) ∨
    ∃ reach', (clause (climb expr)).run (functionTokens ts [Token.eof]) =
      ⟨.error (.nestingTooDeep maxHeight), recorded, [Token.eof], reach'⟩ := by
  have function := run_fnExpression_functionTokens run
  have operand : (operand expr).run (functionTokens ts [Token.eof]) =
      (fnExpression expr).run (functionTokens ts [Token.eof]) := run_operand_function rfl
  have statement : (clause (climb expr)).run (functionTokens ts [Token.eof]) =
      ((climb expr .lowest).toParser >>= fun value =>
        pure ⟨.expr Kind.fnWord.token value.value, value.height⟩).run
          (functionTokens ts [Token.eof]) := by
    rw [clause, run_current_bind]
    exact run_current_bind _ _
  rw [statement, run_bind, climb, run_nested, run_bind, operand, function, Outcome.andThen_ok,
    run_bind, above]
  by_cases tooHigh : maxHeight ≤ body.height
  · rw [if_pos tooHigh]
    exact .inr ⟨reach + 1, by simp [fail]⟩
  · rw [if_neg tooHigh]
    -- no operator stands behind the function
    have stops (left : Measured Expr) :
        (loop (climbs .lowest) (extend expr)
          (fun left => (consumes_extend expr left).progresses _) left).run [Token.eof] =
          ⟨.ok left, [], [Token.eof], 0⟩ := by
      rw [run_loop]
      rfl
    refine .inl ⟨⟨_, body.height + 1⟩, reach + 1, rfl, ?_⟩
    simp [stops]

end

/-- A source that consists of a function alone. -/
theorem run_rounds_functionTokens {expr : Precedence → Rule (Measured Expr)} {ts : Tokens}
    {body : Measured (List Stmt)} {recorded : List ParseError} {reach : Nat}
    (run : (block expr true).run (ts ++ [Kind.closeBrace.token, Token.eof]) =
      ⟨.ok body, recorded, [Kind.closeBrace.token, Token.eof], reach⟩) :
    (∃ m reach', m.value = .expr Kind.fnWord.token (.fn Kind.fnWord.token [] body.value) ∧
      (rounds (climb expr) false).run (functionTokens ts [Token.eof]) =
        ⟨.ok [some m], recorded, [Token.eof], reach'⟩) ∨
    ∃ reach', (rounds (climb expr) false).run (functionTokens ts [Token.eof]) =
      ⟨.ok [none], recorded ++ [.nestingTooDeep maxHeight], [Token.eof], reach'⟩ := by
  have stopped : (rounds (climb expr) false).run [Token.eof] = ⟨.ok [], [], [Token.eof], 0⟩ := by
    rw [rounds, run_collect]
    rfl
  have progress := progresses_statementOrSkip (climb expr) false
  rcases run_clause_functionTokens run with ⟨m, reach', value, clause⟩ | ⟨reach', clause⟩
  · have first := run_collect_of_item progress rfl (run_statementOrSkip_of_ok clause rfl)
    have rest : Tokens.skipping .semicolon [Token.eof] = [Token.eof] := rfl
    rw [← rounds, rest, stopped] at first
    refine .inl ⟨m, reach', value, ?_⟩
    simpa [Except.map] using first
  · have first := run_collect_of_item progress rfl (run_statementOrSkip_of_error clause rfl)
    have rest : Tokens.resume false 0 [Token.eof] = [Token.eof] := rfl
    rw [← rounds, rest, stopped] at first
    refine .inr ⟨reach', ?_⟩
    simpa [Except.map] using first

end Parser

/-! ## Sources -/

/-- The tokens of a source with a function around it. -/
theorem tokenize_functionBody {a : String} {ts : Tokens} (tokens : tokenize a = ts ++ [Token.eof]) :
    tokenize ("fn() \x7b " ++ a ++ " \x7d") = Parser.functionTokens ts [Token.eof] := by
  have same : (Source.ofString a).remaining = ts := by
    rw [tokenize, Source.tokens_eq_remaining] at tokens
    exact List.append_cancel_right tokens
  have word (rest : Source) : Source.tokens (Source.ofString "fn() \x7b " ++ rest) =
      Kind.fnWord.token :: Kind.openParen.token :: Kind.closeParen.token ::
        Kind.openBrace.token :: Source.tokens rest := by
    have lexical : Kind.fnWord.token.Lexical := rfl
    have apart (cs : Source) : Source.Separates ('(' :: cs) := Source.separates_cons (by decide) cs
    show Source.tokens (Kind.fnWord.token.literal.toList ++
      '(' :: ')' :: ' ' :: '\x7b' :: ' ' :: rest) = _
    rw [Source.tokens_literal_append lexical (by decide) ((apart _).apart _),
      Source.tokens_symbol '(' .openParen rfl (by decide),
      Source.tokens_symbol ')' .closeParen rfl (by decide), Source.tokens_blank rfl,
      Source.tokens_symbol '\x7b' .openBrace rfl (by decide), Source.tokens_blank rfl]
  have close : Source.tokens (Source.ofString " \x7d") = [Kind.closeBrace.token, Token.eof] := by
    have whole := Source.tokens_bodyClose []
    rwa [List.append_nil, Source.tokens_nil] at whole
  have apart : Source.Separates (Source.ofString " \x7d") :=
    Source.separates_cons (by decide) ['\x7d']
  rw [tokenize, Source.ofString_append, Source.ofString_append, List.append_assoc, word,
    Source.tokens_append _ apart, close, same]
  rfl

/-- A source in which braces are matched, and which ends with a `;` if there is anything in it, is
parsed in the body of a function as it is on its own: the function holds the same statements, and the
same errors are recorded. All that may get in the way is that the function is nested more deeply. -/
theorem parse_functionBody {a : String} {ts : Tokens} (tokens : tokenize a = ts ++ [Token.eof])
    (matched : Tokens.strictLevel? 0 ts = some 0) (ends : ∀ t ∈ ts.getLast?, t.kind = .semicolon)
    (shallow : ∀ limit, .nestingTooDeep limit ∉ (parse ("fn() \x7b " ++ a ++ " \x7d")).2) :
    parse ("fn() \x7b " ++ a ++ " \x7d") =
      (⟨[.expr Kind.fnWord.token (.fn Kind.fnWord.token [] (parse a).1.statements)]⟩,
        (parse a).2) := by
  have notEof : ∀ u ∈ ts, u.kind ≠ .eof := by
    intro u hu
    rw [tokenize, Source.tokens_eq_remaining] at tokens
    exact Source.kind_ne_eof_of_mem_remaining (List.append_cancel_right tokens ▸ hu)
  -- the body is read with room for one expression less than the source on its own
  let inner := Parser.expression (2 * maxHeight)
  obtain ⟨done, recorded, reach, run⟩ := Parser.exists_run_rounds_body matched
    (Parser.balanced_expression (2 * maxHeight)) notEof ends
  have body : (Parser.block inner true).run (ts ++ [Kind.closeBrace.token, Token.eof]) =
      ⟨.ok ⟨(done.filterMap id).map Measured.value, Measured.highest (done.filterMap id)⟩,
        recorded, [Kind.closeBrace.token, Token.eof], reach⟩ := by
    rw [Parser.block, Parser.run_bind, ← Parser.rounds, run true _ rfl]
    simp
  have around := tokenize_functionBody tokens
  rcases Parser.run_rounds_functionTokens body with ⟨m, reach', value, whole⟩ | ⟨reach', whole⟩
  · rw [← around] at whole
    have parsed := parse_of_run_rounds whole
    have alone : (Parser.rounds (Parser.expression maxOpen) false).run (ts ++ [Token.eof]) =
        ⟨.ok done, recorded, [Token.eof], reach⟩ := by
      have inside := run false [Token.eof] rfl
      rcases Parser.approximates_rounds (Parser.approximates_expression (2 * maxHeight)) false
        (ts ++ [Token.eof]) with deep | same
      · rw [inside] at deep
        rw [parsed] at shallow
        exact absurd deep (shallow maxHeight)
      · exact same.trans inside
    rw [← tokens] at alone
    rw [parsed, parse_of_run_rounds alone]
    simp [value]
  · rw [← around] at whole
    rw [parse_of_run_rounds whole] at shallow
    exact absurd (List.mem_append_right _ List.mem_cons_self) (shallow maxHeight)

/-- A binding without a name and a stray block stay errors of the body, which holds what follows. -/
theorem parse_functionBody_broken :
    Tokens.strictLevel? 0 (Source.ofString "let = 1; \x7b ) \x7d x; y;").remaining = some 0 ∧
      (∀ t ∈ (Source.ofString "let = 1; \x7b ) \x7d x; y;").remaining.getLast?,
        t.kind = .semicolon) ∧
      (parse ("fn() \x7b " ++ "let = 1; \x7b ) \x7d x; y;" ++ " \x7d")).2 =
        [.unexpectedToken .identifier Kind.assignment.token, .noOperand Kind.openBrace.token] ∧
      parse ("fn() \x7b " ++ "let = 1; \x7b ) \x7d x; y;" ++ " \x7d") =
        (⟨[.expr Kind.fnWord.token
          (.fn Kind.fnWord.token [] (parse "let = 1; \x7b ) \x7d x; y;").1.statements)]⟩,
          (parse "let = 1; \x7b ) \x7d x; y;").2) := by
  have matched : Tokens.strictLevel? 0
      (Source.ofString "let = 1; \x7b ) \x7d x; y;").remaining = some 0 := by decide +kernel
  have ends : ∀ t ∈ (Source.ofString "let = 1; \x7b ) \x7d x; y;").remaining.getLast?,
      t.kind = .semicolon := by decide +kernel
  have errors : (parse ("fn() \x7b " ++ "let = 1; \x7b ) \x7d x; y;" ++ " \x7d")).2 =
      [.unexpectedToken .identifier Kind.assignment.token, .noOperand Kind.openBrace.token] := by
    decide +kernel
  have shallow (limit : Nat) : .nestingTooDeep limit ∉
      (parse ("fn() \x7b " ++ "let = 1; \x7b ) \x7d x; y;" ++ " \x7d")).2 := by
    rw [errors]
    simp
  refine ⟨matched, ends, errors, ?_⟩
  exact parse_functionBody (Source.tokens_eq_remaining _) matched ends shallow

end MonkeySyntax
