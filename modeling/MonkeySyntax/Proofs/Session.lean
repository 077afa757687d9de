import MonkeySyntax.Proofs.Parser.Rules
import MonkeySyntax.Session

/-!
# Sessions

`parse` and `parseFile` in terms of one run of the program rule over the tokens of the source, which
always has a value.
-/

namespace MonkeySyntax

/-- One run of the program rule, in a session. -/
theorem Session.program_of_run {session : Session} {m : Measured (List Stmt)}
    {recorded : List ParseError} {rest : Tokens} {reach : Nat}
    (h : Parser.program.run session.rest = ⟨.ok m, recorded, rest, reach⟩) :
    session.program = (⟨m.value⟩, ⟨rest, session.errors ++ recorded⟩) := by
  rw [Session.program, h]

theorem parse_of_run {text : String} {m : Measured (List Stmt)} {recorded : List ParseError}
    {rest : Tokens} {reach : Nat}
    (h : Parser.program.run (Source.ofString text).tokens = ⟨.ok m, recorded, rest, reach⟩) :
    parse text = (⟨m.value⟩, recorded) := by
  rw [parse, Session.program_of_run h]
  rfl

/-- A program is always read to some end. -/
theorem exists_run_program (ts : Tokens) :
    ∃ m recorded rest reach, Parser.program.run ts = ⟨.ok m, recorded, rest, reach⟩ :=
  Parser.Total.exists_run (Parser.total_block _ _) ts

/-- The errors of a source are those of one run of the program rule. -/
theorem errors_run_program (text : String) :
    (Parser.program.run (tokenize text)).errors = (parse text).2 := by
  obtain ⟨m, recorded, rest, reach, run⟩ := exists_run_program (tokenize text)
  rw [parse_of_run run, run]
  rfl

theorem parseFile_eq_ok_iff {file text : String} {p : Program} :
    parseFile file text = .ok p ↔ parse text = (p, []) := by
  unfold parseFile
  split
  · rename_i q h
    rw [h]
    constructor
    · rintro ⟨⟩
      rfl
    · rintro ⟨⟩
      rfl
  · rename_i _ errors some h
    have nonempty : errors ≠ [] := fun none => some none
    simp [h, nonempty]

theorem parseFile_eq_error_iff {file text : String} {failure : ParseFailure} :
    parseFile file text = .error failure ↔
      failure = ⟨file, (parse text).2⟩ ∧ (parse text).2 ≠ [] := by
  unfold parseFile
  split
  · rename_i q h
    simp [h]
  · rename_i _ errors some h
    have nonempty : errors ≠ [] := fun none => some none
    simp [h, nonempty, eq_comm]

/-- A program is made of the rounds of its loop in which a statement was kept. -/
theorem parse_of_run_rounds {text : String} {rounds : List (Option (Measured Stmt))}
    {recorded : List ParseError} {rest : Tokens} {reach : Nat}
    (h : (Parser.rounds (Parser.expression maxOpen) false).run (Source.ofString text).tokens =
      ⟨.ok rounds, recorded, rest, reach⟩) :
    parse text = (⟨(rounds.filterMap id).map Measured.value⟩, recorded) := by
  have run : Parser.program.run (Source.ofString text).tokens =
      ⟨.ok ⟨(rounds.filterMap id).map Measured.value, Measured.highest (rounds.filterMap id)⟩,
        recorded, rest, reach⟩ := by
    rw [Parser.program, Parser.block, Parser.run_bind, ← Parser.rounds, h]
    simp
  exact parse_of_run run

end MonkeySyntax
