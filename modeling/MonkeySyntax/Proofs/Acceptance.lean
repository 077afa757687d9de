import MonkeySyntax.Proofs.Grammar.Complete
import MonkeySyntax.Proofs.Lexer
import MonkeySyntax.Proofs.Parser.Grammatical
import MonkeySyntax.Proofs.Reading.Session

/-!
# The accepted language

`parse_accepts_iff_derives` — a source is parsed without error exactly if its tokens are a sentence of
the grammar, up to the limits on nesting.
-/

namespace MonkeySyntax

/-- A source in which no error is recorded is a sentence of the grammar. -/
theorem derives_of_parse {text : String} (h : (parse text).2 = []) :
    Derives .statements (Source.ofString text).remaining := by
  have noError : (Parser.program.run (tokenize text)).errors = [] :=
    (errors_run_program text).trans h
  have recognized := Parser.recognizes_block (Parser.recognizes_expression maxOpen) false
    (tokenize text)
  cases recognized with
  | takes c rest a reach whole derives run =>
    have atEnd : rest.current.kind = .eof := by
      simpa [Parser.inBlock] using Parser.block_stops (run rest rfl)
    have further : rest <:+ (Source.ofString text).tokens := ⟨c, whole.symm⟩
    rw [tokenize, Source.tokens_eq_remaining] at whole
    -- the sentence does not contain the end of the input, so it ends right in front of it
    rcases Source.eq_of_suffix_tokens further atEnd with rfl | rfl
    · have inside : Token.eof ∈ c := by rw [← List.append_nil c, ← whole]; simp
      exact absurd rfl (derives.kind_ne_eof Token.eof inside)
    · rwa [List.append_cancel_right whole]
  | rejects c rest e whole viable describes run =>
    have first := run rest rfl
    rw [← whole] at first
    cases (congrArg List.head? noError).symm.trans first
  | tooDeep run => cases (congrArg List.head? noError).symm.trans run

/-- The parser accepts exactly its grammar, up to the limits on nesting: without any error the tokens
of the source are a sentence, and for a sentence there is no error or the first one is that
expressions are nested too deeply. -/
theorem parse_accepts_iff_derives (text : String) :
    ((parse text).2 = [] → Derives .statements (Source.ofString text).remaining) ∧
    (Derives .statements (Source.ofString text).remaining →
      (parse text).2 = [] ∨ (parse text).2.head? = some (.nestingTooDeep maxHeight)) := by
  refine ⟨derives_of_parse, fun derives => ?_⟩
  have begins : Begins .statements (fun r => r = [Token.eof]) (Source.ofString text).tokens :=
    ⟨_, _, Source.tokens_eq_remaining _, derives, rfl⟩
  have lexical : Tokens.Lexical (Source.ofString text).tokens :=
    fun t ht => Source.lexical_of_mem_tokens ht
  obtain ⟨ss, rest, d, reads, -⟩ := begins.reads lexical (by rintro _ rfl; rfl)
  rcases reads.parse with ⟨-, parsed⟩ | ⟨-, tooDeep⟩
  · exact .inl (by rw [parsed])
  · exact .inr tooDeep

end MonkeySyntax
