import MonkeySyntax.Proofs.Reading.OfRun
import MonkeySyntax.Proofs.Reading.ToRun
import MonkeySyntax.Proofs.Session

/-!
# Reading a source

What `parse` returns, in terms of readings of all the tokens of the source.

* `reads_parse` — the program that `parse` returns is always read, within the height limit.
* `Reads.parse` — what can be read without loss is what `parse` returns, up to the limits exactly.
-/

namespace MonkeySyntax

/-- The program that is returned is what has been read of the source, within the height limit.
Statements are left out only where errors are recorded. -/
theorem reads_parse (lossy : Prop) (text : String) (loses : (parse text).2 ≠ [] → lossy) :
    ∃ rest d, Reads lossy (.block false (parse text).1.statements) (Source.ofString text).tokens
      rest d ∧ Stmt.highest (parse text).1.statements ≤ maxHeight := by
  obtain ⟨m, recorded, rest, reach, run⟩ := exists_run_program (Source.ofString text).tokens
  rw [parse_of_run run] at loses ⊢
  obtain ⟨ss, rfl, within, reads⟩ := block_reads (expression_explained maxOpen)
    ⟨recorded, run, loses⟩
  exact ⟨rest, reach, reads, within⟩

/-- What can be read without loss is returned without error if it is within the limits. If it is not,
the first error is that something is nested too deeply. -/
theorem Reads.parse {text : String} {ss : List Stmt} {rest : Tokens} {d : Nat}
    (h : Reads False (.block false ss) (Source.ofString text).tokens rest d) :
    (Fits maxOpen (Stmt.highest ss) d ∧ MonkeySyntax.parse text = (⟨ss⟩, [])) ∨
    (¬Fits maxOpen (Stmt.highest ss) d ∧
      (MonkeySyntax.parse text).2.head? = some (.nestingTooDeep maxHeight)) := by
  rcases Phrase.RunsOn.block h.runsOn maxOpen with ⟨fits, run⟩ | ⟨beyond, tooDeep⟩
  · exact .inl ⟨fits, parse_of_run run⟩
  · refine .inr ⟨beyond, ?_⟩
    obtain ⟨m, recorded, rest, reach, run⟩ := exists_run_program (Source.ofString text).tokens
    have first : (Parser.program.run (Source.ofString text).tokens).TooDeep := tooDeep
    rw [run, Outcome.tooDeep_ok] at first
    rw [parse_of_run run]
    exact first

end MonkeySyntax
