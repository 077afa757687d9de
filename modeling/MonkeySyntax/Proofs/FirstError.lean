import MonkeySyntax.Proofs.Grammar.Complete
import MonkeySyntax.Proofs.Lexer
import MonkeySyntax.Proofs.Parser.Grammatical
import MonkeySyntax.Proofs.Reading.Session

/-!
# The first error

`first_error_parse` — the first error of a source is about the first token with which it cannot go on
any more: what is in front of the token can be completed to a program, and with the token it cannot.

That it can be completed is what the rules of the parser recognize. That it cannot with the token
follows from the fact that sentences are read: what the parser does up to its first error depends on
the tokens up to there only, so it would make the same error in a sentence.
-/

namespace MonkeySyntax

/-- In a sentence of the grammar, nothing comes before the error that it nests too deeply. -/
theorem Derives.first_error {ts : Tokens} {e : ParseError} (h : Derives .statements ts)
    (lexical : ts.Lexical)
    (first : (Parser.program.run (ts ++ [Token.eof])).errors.head? = some e) :
    e = .nestingTooDeep maxHeight := by
  have begins : Begins .statements (fun r => r = [Token.eof]) (ts ++ [Token.eof]) :=
    ⟨ts, _, rfl, h, rfl⟩
  have atEnd : Tokens.Lexical [Token.eof] := by
    intro t ht
    rw [List.mem_singleton.mp ht]
    rfl
  obtain ⟨ss, rest, d, reads, -⟩ :=
    begins.reads (Tokens.lexical_append.mpr ⟨lexical, atEnd⟩) (by rintro _ rfl; rfl)
  rcases Phrase.RunsOn.block reads.runsOn maxOpen with ⟨-, given⟩ | ⟨-, tooDeep⟩
  · rw [Parser.program, given] at first
    cases first
  · exact Option.some.inj (first.symm.trans tooDeep)

/-- Tokens behind which the program rule makes the same error, whatever follows, are the beginning of
no sentence. -/
theorem not_derives_of_first_error {ts : Tokens} {e : ParseError} (lexical : ts.Lexical)
    (shallow : e ≠ .nestingTooDeep maxHeight)
    (fails : ∀ us, (Parser.program.run (ts ++ us)).errors.head? = some e) (later : Tokens) :
    ¬Derives .statements (ts ++ later) := by
  intro derives
  -- tokens without lexical form are as good as others to the grammar, but not to the parser
  obtain ⟨later, lexical', derives⟩ := derives.exists_lexical lexical
  refine shallow (derives.first_error (Tokens.lexical_append.mpr ⟨lexical, lexical'⟩) ?_)
  rw [List.append_assoc]
  exact fails (later ++ [Token.eof])

/-- The first error of a source that does not nest too deeply is about a token with which the tokens in
front of it are no longer the beginning of a program, and they were until there. If that token is the
end of the input, the tokens in front of it are no program themselves. -/
theorem first_error_parse {text : String} {e : ParseError} (first : (parse text).2.head? = some e)
    (shallow : ∀ limit, e ≠ .nestingTooDeep limit) :
    ∃ before t after, tokenize text = before ++ t :: after ∧ e.Describes t ∧
      (∃ later : Tokens, later.Lexical ∧ Derives .statements (before ++ later)) ∧
      (∀ later, ¬Derives .statements (before ++ t :: later)) ∧
      (t.kind = .eof → ¬Derives .statements before) := by
  have lexical : Tokens.Lexical (tokenize text) := fun t ht => Source.lexical_of_mem_tokens ht
  rw [← errors_run_program] at first
  have recognized := Parser.recognizes_block (Parser.recognizes_expression maxOpen) false
    (tokenize text)
  cases recognized with
  | takes c rest a reach split sentence run =>
    -- a program that is taken has no error
    have taken := run rest rfl
    rw [← split] at taken
    have noError : (Parser.program.run (tokenize text)).errors = [] := by
      rw [Parser.program, taken]
      rfl
    cases noError ▸ first
  | tooDeep run =>
    cases first.symm.trans run
    exact absurd rfl (shallow maxHeight)
  | rejects before rest e' split viable describes run =>
    obtain rfl : e' = e := by
      have here := run rest rfl
      rw [← split] at here
      exact Option.some.inj (here.symm.trans first)
    obtain ⟨later, completed⟩ := viable
    cases rest with
    | nil =>
      -- the end of the input is in no sentence, so it is not behind all of the tokens
      rw [List.append_nil, tokenize, Source.tokens_eq_remaining] at split
      rw [← split] at completed
      exact absurd rfl (completed.kind_ne_eof Token.eof (by simp))
    | cons t after =>
      rw [split, List.append_cons, Tokens.lexical_append] at lexical
      have lexicalBefore : before.Lexical := (Tokens.lexical_append.mp lexical.1).1
      refine ⟨before, t, after, split, describes, completed.exists_lexical lexicalBefore, ?_, ?_⟩
      · intro later
        rw [List.append_cons]
        refine not_derives_of_first_error lexical.1 (shallow maxHeight) (fun us => ?_) later
        rw [List.append_assoc]
        exact run (t :: us) rfl
      · intro atEnd derives
        have isEof : t = Token.eof := (lexical.1 t (by simp)).eq_token atEnd rfl
        exact shallow maxHeight (derives.first_error lexicalBefore (run [Token.eof] isEof.symm))

/-- The call in `f(1; x` is given up at the semicolon. -/
theorem first_error_parse_openCall :
    (parse "f(1; x").2.head? = some (.noOperand ⟨.semicolon, ";"⟩) ∧
      ∃ before t after, tokenize "f(1; x" = before ++ t :: after ∧
        (ParseError.noOperand ⟨.semicolon, ";"⟩).Describes t ∧
        (∃ later : Tokens, later.Lexical ∧ Derives .statements (before ++ later)) ∧
        (∀ later, ¬Derives .statements (before ++ t :: later)) ∧
        (t.kind = .eof → ¬Derives .statements before) := by
  have first : (parse "f(1; x").2.head? = some (.noOperand ⟨.semicolon, ";"⟩) := by decide +kernel
  exact ⟨first, first_error_parse first (by rintro limit ⟨⟩)⟩

end MonkeySyntax
