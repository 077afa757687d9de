import MonkeySyntax.Proofs.Lexer
import MonkeySyntax.Proofs.Reading.Session
import MonkeySyntax.Proofs.Reading.WellFormed

/-!
# Where trees come from

Every token in a parsed program is a token of the source, and every node says what its tokens say.

* `yield_parse` — without errors, the tokens in the program are those of the source, except for the
  ones that leave no trace. With errors, no token is in it that the source does not have, and they are
  in the order of the source.
* `everywhere_parse` — the tokens in the program agree with its nodes, and no expression in it is
  higher than the limit.
-/

namespace MonkeySyntax

/-- No token of the source is lost, and none is moved, doubled or made up. Where errors are recorded,
tokens are lost with the statements that are left out. -/
theorem yield_parse (text : String) :
    ((parse text).2 = [] →
      (parse text).1.yield = (tokenize text).filter (·.kind.leavesTrace)) ∧
    (parse text).1.yield.Sublist (tokenize text) := by
  have lexical : Tokens.Lexical (Source.ofString text).tokens :=
    fun t ht => Source.lexical_of_mem_tokens ht
  constructor
  · intro noError
    obtain ⟨rest, d, reads, -⟩ := reads_parse False text fun some => some noError
    obtain ⟨c, whole, -, exactly⟩ := reads.traces lexical
    -- what is left behind the statements is the end of the input, which leaves no trace
    have stops := reads.block_stops
    have atEnd : rest.current.kind = .eof := by simpa [Parser.inBlock] using stops
    have nothing : rest.filter (·.kind.leavesTrace) = [] := by
      rcases Source.eq_of_suffix_tokens ⟨c, whole.symm⟩ atEnd with rfl | rfl <;> rfl
    rw [tokenize, whole, List.filter_append, nothing, List.append_nil]
    exact exactly id
  · obtain ⟨rest, d, reads, -⟩ := reads_parse True text fun _ => trivial
    have traces : Traces True (parse text).1.yield (Source.ofString text).tokens rest :=
      reads.traces lexical
    exact traces.sublist

/-- Whatever the source is, the tokens in the program agree with its nodes at any depth, the token of
an expression statement is where the statement began, and no expression is higher than the limit. -/
theorem everywhere_parse (text : String) :
    Stmt.AllEverywhere (fun e => e.Agrees ∧ e.height ≤ maxHeight) Stmt.Faithful
      (parse text).1.statements := by
  obtain ⟨rest, d, reads, within⟩ := reads_parse True text fun _ => trivial
  have faithful := reads.faithful fun t ht => Source.lexical_of_mem_tokens ht
  rw [Stmt.allEverywhere_iff]
  intro s hs
  exact (faithful s hs).within (Stmt.highest_le_iff.mp within s hs)

end MonkeySyntax
