import MonkeySyntax.Proofs.Machine.Session
import MonkeySyntax.Proofs.Parser.Spending

/-!
# Progress

`program_ofSource_progress` — parsing a source drops a token in each round of each loop and ends in
front of the end of the input, where nothing is left to do. Each error and each statement takes a token
of its own.
-/

namespace MonkeySyntax

/-- A program is read up to the end of the source, which stays. -/
theorem exists_run_program_ofSource (src : Source) : ∃ m recorded reach,
    Parser.program.run src.tokens = ⟨.ok m, recorded, [Token.eof], reach⟩ := by
  obtain ⟨m, recorded, rest, reach, run⟩ := exists_run_program src.tokens
  have further : rest <:+ src.tokens := by
    have suffix := Parser.program.rest_suffix src.tokens
    rwa [run] at suffix
  have atEnd : rest.current.kind = .eof := by
    simpa [Parser.inBlock] using Parser.block_stops run
  -- the machine ends in a valid state, so there is a token at its position
  have nonempty : rest ≠ [] := by
    obtain ⟨s, -, valid, -, session⟩ := Machine.reaches_programs (ρ := List Program) 1 .done
      (Machine.State.valid_ofSource src) rfl
    have done : (Session.ofSource src).program = (⟨m.value⟩, ⟨rest, recorded⟩) :=
      Session.program_of_run run
    have same : s.rest = rest := by
      show s.session.rest = rest
      rw [session]
      show (Session.ofSource src).program.2.rest = rest
      rw [done]
    obtain ⟨t, ts, front, -⟩ := valid.exists_rest
    rw [← same, front]
    exact List.cons_ne_nil t ts
  obtain rfl : rest = [Token.eof] := (Source.eq_of_suffix_tokens further atEnd).resolve_left nonempty
  exact ⟨m, recorded, reach, run⟩

/-- At the end of the input there is no statement. -/
theorem Session.program_of_atEnd {session : Session} (h : session.rest = [Token.eof]) :
    session.program = (⟨[]⟩, session) := by
  have run : Parser.program.run session.rest = ⟨.ok ⟨[], 0⟩, [], session.rest, 0⟩ := by
    rw [Parser.program, Parser.block, Parser.run_bind, Parser.run_collect, if_neg (by rw [h]; decide)]
    rfl
  rw [Session.program_of_run run, List.append_nil]

/-- The tokens of a source that do not end the input are those in front of its end. -/
theorem Source.filter_tokens (src : Source) :
    src.tokens.filter (·.kind ≠ .eof) = src.remaining := by
  rw [tokens_eq_remaining, List.filter_append, List.filter_eq_self.mpr]
  · exact List.append_nil _
  · intro t ht
    simpa using kind_ne_eof_of_mem_remaining ht

/-- Errors and statements are paid for with tokens, and the end of the input is not spent. -/
theorem length_recorded_add_statementCounts_le {src : Source} {m : Measured (List Stmt)}
    {recorded : List ParseError} {reach : Nat}
    (h : Parser.program.run src.tokens = ⟨.ok m, recorded, [Token.eof], reach⟩) :
    recorded.length + Stmt.statementCounts m.value ≤ src.remaining.length := by
  have paid := Parser.paid_block (Parser.paid_expression maxOpen) false src.tokens
  rw [← Parser.program, h] at paid
  have total : recorded.length + Stmt.statementCounts m.value + 1 ≤ src.tokens.length := paid
  rw [Source.tokens_eq_remaining, List.length_append, List.length_singleton] at total
  exact Nat.le_of_succ_le_succ total

/-- Parsing makes progress until nothing is left. A round of the loop over statements always has an
outcome to go on with and drops a token, whether a statement was read or an error recorded; so does a
round of the loop over arguments and one of the loop over parameters, unless it stops with an error.
A program ends in front of the end of the input. There are at most as many errors and statements, at
all depths, as there are tokens in front of that end, and from there on nothing is read or recorded any
more. -/
theorem program_ofSource_progress (src : Source) :
    (∀ room inBody, (Parser.statementOrSkip (Parser.expression room) inBody).Total ∧
      (Parser.statementOrSkip (Parser.expression room) inBody).Progresses (Parser.inBlock inBody)) ∧
    (∀ room, (Parser.argument (Parser.expression room)).Progresses Parser.inParens) ∧
    Parser.parameter.Progresses Parser.inParens ∧
    (∃ m recorded reach,
      Parser.program.run src.tokens = ⟨.ok m, recorded, [Token.eof], reach⟩) ∧
    let (program, session) := (Session.ofSource src).program
    session.rest = [Token.eof] ∧
    session.errors.length + program.statementCount ≤
      (src.tokens.filter (·.kind ≠ .eof)).length ∧
    session.program = (⟨[]⟩, session) := by
  obtain ⟨m, recorded, reach, run⟩ := exists_run_program_ofSource src
  have done : (Session.ofSource src).program = (⟨m.value⟩, ⟨[Token.eof], recorded⟩) :=
    Session.program_of_run run
  refine ⟨?_, ?_, ?_, ⟨m, recorded, reach, run⟩, ?_⟩
  · intro room inBody
    exact ⟨Parser.total_recovering _ _ _, Parser.progresses_statementOrSkip _ inBody⟩
  · intro room
    exact Parser.progresses_argument _
  · exact Parser.consumes_parameter.progresses _
  · rw [done]
    refine ⟨rfl, ?_, Session.program_of_atEnd rfl⟩
    rw [Source.filter_tokens]
    exact length_recorded_add_statementCounts_le run

end MonkeySyntax
