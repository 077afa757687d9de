import MonkeySyntax.Proofs.Lexer
import MonkeySyntax.Proofs.Parser.Balanced
import MonkeySyntax.Proofs.Session

/-!
# Errors do not leak

`parse_append_semicolon` — a `;` outside braces separates: what stands in front of it and what stands
behind it are parsed as if the other were not there, whatever errors there are on either side.

One round of the top-level loop ends at a boundary (`exists_boundary_statementOrSkip`), so by
induction the whole loop comes past the `;` (`exists_run_rounds`).
-/

namespace MonkeySyntax

namespace Parser

open Tokens

variable {expr : Precedence → Rule (Measured Expr)} {ts : Tokens} {t : Token}

/-- A `;` at a boundary leads to a boundary. -/
theorem skipping_semicolon (level : braceLevel 0 ts = 0) (semicolon : t.kind = .semicolon) :
    ∃ go, Boundary ts t go ∧ ∀ us, Tokens.skipping .semicolon (ts ++ t :: us) = go us := by
  cases ts with
  | nil => exact ⟨id, .behind, fun us => Tokens.skipping_cons (by decide) semicolon us⟩
  | cons u ts =>
    by_cases here : u.kind = .semicolon
    · have level' : braceLevel 0 ts = 0 := by
        rw [braceLevel_cons, here] at level
        exact level
      exact ⟨_, .before (List.suffix_cons u ts) level', fun us =>
        Tokens.skipping_cons (by decide) here (ts ++ t :: us)⟩
    · have stays (us : Tokens) (other : us.current.kind ≠ .semicolon) :
          us.skipping .semicolon = us := Tokens.skipping_of_ne other
      exact ⟨_, .before (List.suffix_refl _) level, fun us => stays (u :: ts ++ t :: us) here⟩

/-- A round in which a statement is read goes on behind its `;`. -/
theorem run_statementOrSkip_of_ok {inBody : Bool} {us rest rest' : Tokens} {m : Measured Stmt}
    {recorded : List ParseError} {reach : Nat}
    (run : (clause expr).run us = ⟨.ok m, recorded, rest, reach⟩)
    (skipped : rest.skipping .semicolon = rest') :
    (statementOrSkip expr inBody).run us = ⟨.ok (some m), recorded, rest', reach⟩ := by
  have statement : (statement expr).run us = ⟨.ok m, recorded, rest', reach⟩ := by
    rw [statement_eq_clause, run_bind, run, Outcome.andThen_ok, run_bind, run_skip, skipped]
    simp
  unfold statementOrSkip recovering
  dsimp only
  rw [statement]

/-- A round in which no statement is read goes on where reading resumes. -/
theorem run_statementOrSkip_of_error {inBody : Bool} {us rest rest' : Tokens} {e : ParseError}
    {recorded : List ParseError} {reach : Nat}
    (run : (clause expr).run us = ⟨.error e, recorded, rest, reach⟩)
    (resumed : rest.resume inBody 0 = rest') :
    (statementOrSkip expr inBody).run us = ⟨.ok none, recorded ++ [e], rest', reach⟩ := by
  have statement : (statement expr).run us = ⟨.error e, recorded, rest, reach⟩ := by
    rw [statement_eq_clause, run_bind, run, Outcome.andThen_error]
  subst resumed
  unfold statementOrSkip recovering
  dsimp only
  rw [statement]

/-- If every round ends behind `t`, or in front of it with tokens of the same sort, whatever stands
behind `t`, then the loop over statements comes past `t` in rounds that do not depend on what stands
behind it, and starts anew there. So it does in several modes at once, if its rounds do. -/
theorem exists_run_rounds_of (modes : Bool → Prop) (top : modes false) {sort : Tokens → Prop}
    (goesOn : ∀ ts, sort ts → ∀ inBody, modes inBody → ∀ us,
      inBlock inBody (ts ++ t :: us : Tokens).current.kind = true)
    (round : ∀ ts, sort ts → ∃ o recorded reach go,
      (go = id ∨ ∃ ts', sort ts' ∧ go = fun us => ts' ++ t :: us) ∧
      ∀ inBody, modes inBody → ∀ us,
        (statementOrSkip expr inBody).run (ts ++ t :: us) = ⟨.ok o, recorded, go us, reach⟩)
    (h : sort ts) : ∃ done recorded reach, ∀ inBody, modes inBody → ∀ us,
      (rounds expr inBody).run (ts ++ t :: us) =
        let later := (rounds expr inBody).run us
        ⟨later.result.map (done ++ ·), recorded ++ later.recorded, later.rest,
          max reach later.reach⟩ := by
  -- the induction is on the tokens in front of `t`, of which every round takes at least one
  induction hn : ts.length using Nat.strongRecOn generalizing ts with
  | ind n ih =>
    obtain ⟨o, recorded, reach, go, ends, run⟩ := round ts h
    have first (inBody : Bool) (mode : modes inBody) (us : Tokens) :=
      run_collect_of_item (progresses_statementOrSkip expr inBody) (goesOn ts h inBody mode us)
        (run inBody mode us)
    rcases ends with rfl | ⟨ts', h', rfl⟩
    · exact ⟨[o], recorded, reach, first⟩
    · have shorter : ts'.length < ts.length := by
        have less := progresses_statementOrSkip expr false (ts ++ [t]) o (goesOn ts h false top [])
          (by rw [run false top])
        rw [run false top, List.length_append, List.length_append] at less
        exact Nat.lt_of_add_lt_add_right less
      obtain ⟨done, recorded', reach', later⟩ := ih ts'.length (hn ▸ shorter) h' rfl
      refine ⟨o :: done, recorded ++ recorded', max reach reach', fun inBody mode us => ?_⟩
      rw [rounds, first inBody mode us, ← rounds, later inBody mode us]
      cases (rounds expr inBody).run us with
      | mk result recorded'' rest reach'' => cases result <;> simp [Except.map, Nat.max_assoc]

section

variable (hexpr : ∀ min, Balanced 0 (expr min).toParser) (level : braceLevel 0 ts = 0)
  (notEof : ∀ u ∈ ts, u.kind ≠ .eof) (semicolon : t.kind = .semicolon)
include hexpr level notEof semicolon

/-- A statement without its `;` does not reach beyond a `;` at level zero. Whether it succeeds or not,
what it takes is guarded and leads back to level zero. -/
theorem exists_run_clause : ∃ result recorded reach c ts', ts = c ++ ts' ∧
    guardedLevel? 0 c = some 0 ∧
    ∀ us, (clause expr).run (ts ++ t :: us) = ⟨result, recorded, ts' ++ t :: us, reach⟩ := by
  obtain ⟨c, k, result, recorded, rest, reach, -, split, guarded, ends, again⟩ :=
    balanced_clause hexpr 0 (Nat.le_refl 0) (ts ++ [t])
  -- what the clause drops is guarded, and the `;` is not, so the clause ends in front of it
  obtain ⟨ts', rfl, rfl⟩ : ∃ ts', ts = c ++ ts' ∧ rest = ts' ++ [t] := by
    rcases List.append_eq_append_iff.mp split with ⟨beyond, rfl, same⟩ | ⟨ts', here, rest⟩
    · cases beyond with
      | nil => exact ⟨[], by simp, same.symm⟩
      | cons u beyond =>
        obtain ⟨rfl, -⟩ := List.cons.inj same
        rw [guardedLevel?_semicolon level semicolon] at guarded
        cases guarded
    · exact ⟨ts', here, rest⟩
  have notAtEnd : (ts' ++ [t] : Tokens).current.kind ≠ .eof := by
    cases ts' with
    | nil => rw [List.nil_append, current_cons, semicolon]; decide
    | cons u ts' => exact notEof u (by simp)
  have zero : k = 0 := by
    have leads := ends.resolve_left notAtEnd
    cases result <;> exact leads
  refine ⟨result, recorded, reach, c, ts', rfl, zero ▸ guarded, fun us => ?_⟩
  have next : (ts' ++ t :: us : Tokens).current = (ts' ++ [t] : Tokens).current :=
    current_append rfl
  rw [List.append_assoc, again _ next]

/-- One round of the loop over statements ends at a boundary. -/
theorem exists_boundary_statementOrSkip : ∃ o recorded reach go, Boundary ts t go ∧
    ∀ us, (statementOrSkip expr false).run (ts ++ t :: us) = ⟨.ok o, recorded, go us, reach⟩ := by
  obtain ⟨result, recorded, reach, c, ts', rfl, guarded, run⟩ :=
    exists_run_clause hexpr level notEof semicolon
  -- no more braces are opened than closed in what is left in front of the `;`
  have level' : braceLevel 0 ts' = 0 := by
    rwa [braceLevel_append, braceLevel_of_guardedLevel? guarded] at level
  have further : ts' <:+ c ++ ts' := List.suffix_append c ts'
  cases result with
  | ok m =>
    obtain ⟨go, boundary, skipped⟩ := skipping_semicolon level' semicolon
    refine ⟨some m, recorded, reach, go, boundary.mono further, fun us => ?_⟩
    exact run_statementOrSkip_of_ok (run us) (skipped us)
  | error e =>
    have notEof' : ∀ u ∈ ts', u.kind ≠ .eof := fun u hu => notEof u (further.subset hu)
    obtain ⟨go, boundary, resumed⟩ := resume_semicolon level' notEof' semicolon
    refine ⟨none, recorded ++ [e], reach, go, boundary.mono further, fun us => ?_⟩
    exact run_statementOrSkip_of_error (run us) (resumed us)

/-- The loop over statements goes through the tokens up to the `;` and the `;` in rounds that do not
depend on what stands behind it, and starts anew there. -/
theorem exists_run_rounds : ∃ done recorded reach, ∀ us,
    (rounds expr false).run (ts ++ t :: us) =
      let later := (rounds expr false).run us
      ⟨later.result.map (done ++ ·), recorded ++ later.recorded, later.rest,
        max reach later.reach⟩ := by
  let sort (ts : Tokens) : Prop := braceLevel 0 ts = 0 ∧ ∀ u ∈ ts, u.kind ≠ .eof
  have goesOn (ts : Tokens) (h : sort ts) (us : Tokens) :
      inBlock false (ts ++ t :: us : Tokens).current.kind = true := by
    cases ts with
    | nil => rw [List.nil_append, current_cons, semicolon]; rfl
    | cons u ts =>
      have here := h.2 u List.mem_cons_self
      simp [inBlock, here]
  have round (ts : Tokens) (h : sort ts) : ∃ o recorded reach go,
      (go = id ∨ ∃ ts', sort ts' ∧ go = fun us => ts' ++ t :: us) ∧
      ∀ us, (statementOrSkip expr false).run (ts ++ t :: us) =
        ⟨.ok o, recorded, go us, reach⟩ := by
    obtain ⟨o, recorded, reach, go, boundary, run⟩ :=
      exists_boundary_statementOrSkip hexpr h.1 h.2 semicolon
    refine ⟨o, recorded, reach, go, ?_, run⟩
    cases boundary with
    | behind => exact .inl rfl
    | @before ts' further level' =>
      exact .inr ⟨ts', ⟨level', fun u hu => h.2 u (further.subset hu)⟩, rfl⟩
  have here : sort ts := ⟨level, notEof⟩
  obtain ⟨done, recorded, reach, run⟩ := exists_run_rounds_of (fun inBody => inBody = false) rfl
    (by rintro ts h _ rfl; exact goesOn ts h) (by simpa using round) here
  exact ⟨done, recorded, reach, run false rfl⟩

end

end Parser

/-! ## Whole sources -/

/-- A `;` outside braces separates two sources: the statements and the errors of the whole are those of
the first source with its `;`, and then those of the second, whatever errors there are. -/
theorem parse_append_semicolon {a : String} (level : Tokens.braceLevel 0 (tokenize a) = 0)
    (b : String) :
    parse (a ++ ";" ++ b) =
      (⟨(parse (a ++ ";")).1.statements ++ (parse b).1.statements⟩,
        (parse (a ++ ";")).2 ++ (parse b).2) := by
  have level' : Tokens.braceLevel 0 (Source.ofString a).remaining = 0 := by
    rw [tokenize, Source.tokens_eq_remaining, Tokens.braceLevel_append] at level
    exact level
  have split (src : Source) : (Source.ofString (a ++ ";") ++ src).tokens =
      (Source.ofString a).remaining ++ Kind.semicolon.token :: src.tokens := by
    rw [Source.ofString_append, List.append_assoc]
    exact Source.tokens_append_semicolon (Source.ofString a) src
  obtain ⟨done, recorded, reach, run⟩ := Parser.exists_run_rounds
    (Parser.balanced_expression maxOpen) level'
    (fun u hu => Source.kind_ne_eof_of_mem_remaining hu) (Kind.kind_token .semicolon)
  obtain ⟨later, recorded', rest, reach', runLater⟩ :=
    (Parser.total_rounds (Parser.expression maxOpen) false).exists_run (Source.ofString b).tokens
  -- the first source with its `;` is the case in which nothing stands behind the `;`
  have atEnd : (Parser.rounds (Parser.expression maxOpen) false).run [Token.eof] =
      ⟨.ok [], [], [Token.eof], 0⟩ := by
    rw [Parser.rounds, Parser.run_collect]
    rfl
  have whole := run (Source.ofString b).tokens
  rw [← split, ← Source.ofString_append, runLater] at whole
  have first := run [Token.eof]
  rw [← Source.tokens_nil, ← split, List.append_nil, Source.tokens_nil, atEnd] at first
  rw [parse_of_run_rounds whole, parse_of_run_rounds first, parse_of_run_rounds runLater]
  simp

/-- A brace too many, a broken binding and an open parenthesis in front of the `;`. -/
theorem parse_append_semicolon_broken :
    Tokens.braceLevel 0 (tokenize "\x7d let (") = 0 ∧
    parse ("\x7d let (" ++ ";" ++ "x") =
      (⟨(parse ("\x7d let (" ++ ";")).1.statements ++ (parse "x").1.statements⟩,
        (parse ("\x7d let (" ++ ";")).2 ++ (parse "x").2) :=
  have level : Tokens.braceLevel 0 (tokenize "\x7d let (") = 0 := by decide +kernel
  ⟨level, parse_append_semicolon level "x"⟩

end MonkeySyntax
