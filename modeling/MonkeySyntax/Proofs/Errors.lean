import Mathlib.Data.List.Forall2
import MonkeySyntax.Proofs.Lexer.Layout
import MonkeySyntax.Proofs.Parser.Truthful
import MonkeySyntax.Proofs.Session

/-!
# The list of errors

`errors_parse_truthful` — every error of a source is about one of its tokens and says what is true of
it. The errors are in the order of their tokens, and no token is blamed twice, except for the end of the
input. That is blamed at most once for each opening brace, and once more.

What an end piece of the tokens starts with is a token at a certain place (`Tokens.place`), and end
pieces get shorter as the places get larger. So places can be read off from `Blames`.
-/

namespace MonkeySyntax

/-! ## Places -/

namespace Tokens

/-- The place among `all` tokens at which an end piece of them starts. An end piece without any tokens
starts at the end of the input, which is the last token. -/
def place (all us : Tokens) : Nat := all.length - max 1 us.length

variable {src : Source} {ts us : Tokens}

theorem place_le (all : Tokens) (further : us <:+ ts) : place all ts ≤ place all us := by
  have shorter := further.length_le
  unfold place
  omega

theorem getElem?_place (inside : us <:+ src.tokens) :
    src.tokens[place src.tokens us]? = some us.current := by
  cases us with
  | nil =>
    rw [place, Source.tokens_eq_remaining]
    simp [current]
  | cons u us =>
    obtain ⟨before, whole⟩ := inside
    rw [place, ← whole]
    simp

/-- A token in front of the end of the input has its place in front of the tokens behind it. -/
theorem place_lt_place_advance (inside : us <:+ src.tokens) (notEof : us.current.kind ≠ .eof) :
    place src.tokens us < place src.tokens us.advance := by
  have shorter := inside.length_le
  have less := length_advance_lt notEof
  have behind : us.advance ≠ [] := by
    intro nothing
    have alone : us = [us.current] := nothing ▸ eq_cons_of_current notEof
    obtain ⟨before, whole⟩ := inside
    rw [Source.tokens_eq_remaining, alone] at whole
    have last := (List.append_inj' whole rfl).2
    exact notEof (by rw [(List.cons.inj last).1]; rfl)
  have pos := List.length_pos_of_ne_nil behind
  unfold place
  omega

theorem current_of_eof (inside : us <:+ src.tokens) (eof : us.current.kind = .eof) :
    us.current = Token.eof := by
  rcases Source.eq_of_suffix_tokens inside eof with rfl | rfl <;> rfl

end Tokens

namespace Blames

variable {n : Nat} {es : List ParseError} {ts rest : Tokens}

/-- The errors are about tokens at places further and further on. -/
theorem exists_places {src : Source} (h : Blames n es ts rest) (inside : ts <:+ src.tokens) :
    ∃ places : List Nat,
      List.Forall₂ (fun e k => ∃ t, src.tokens[k]? = some t ∧ e.TrueOf t) es places ∧
      places.Pairwise (fun j k => j ≤ k ∧ (j = k → src.tokens[k]? = some Token.eof)) ∧
      places.countP (fun k => src.tokens[k]? = some Token.eof) = n ∧
      ∀ k ∈ places, Tokens.place src.tokens ts ≤ k := by
  induction h with
  | nothing _ => exact ⟨[], .nil, .nil, rfl, by simp⟩
  | @token n e es ts us rest further isTrue notEof _ ih =>
    have inside' := further.trans inside
    obtain ⟨places, about, ordered, atEnd, bound⟩ := ih (us.advance_suffix.trans inside')
    have here := Tokens.getElem?_place inside'
    have before := Tokens.place_le src.tokens further
    have beyond (k : Nat) (hk : k ∈ places) : Tokens.place src.tokens us < k :=
      Nat.lt_of_lt_of_le (Tokens.place_lt_place_advance inside' notEof) (bound k hk)
    have other : src.tokens[Tokens.place src.tokens us]? ≠ some Token.eof := by
      rw [here]
      intro eof
      exact notEof (by rw [Option.some.inj eof]; rfl)
    refine ⟨Tokens.place src.tokens us :: places, .cons ⟨_, here, isTrue⟩ about, ?_, ?_, ?_⟩
    · refine List.pairwise_cons.mpr ⟨fun k hk => ⟨(beyond k hk).le, fun same => ?_⟩, ordered⟩
      exact absurd same (beyond k hk).ne
    · rw [List.countP_cons_of_neg (by simpa using other), atEnd]
    · exact List.forall_mem_cons.mpr ⟨before, fun k hk => before.trans (beyond k hk).le⟩
  | @atEnd n e es ts us rest further isTrue eof _ ih =>
    have inside' := further.trans inside
    obtain ⟨places, about, ordered, atEnd, bound⟩ := ih inside'
    have here := Tokens.getElem?_place inside'
    have before := Tokens.place_le src.tokens further
    have isEof := Tokens.current_of_eof inside' eof
    rw [isEof] at here isTrue
    refine ⟨Tokens.place src.tokens us :: places, .cons ⟨_, here, isTrue⟩ about, ?_, ?_, ?_⟩
    · refine List.pairwise_cons.mpr ⟨fun k hk => ⟨bound k hk, fun same => ?_⟩, ordered⟩
      exact same ▸ here
    · rw [List.countP_cons_of_pos (by simpa using here), atEnd]
    · exact List.forall_mem_cons.mpr ⟨before, fun k hk => before.trans (bound k hk)⟩

theorem exists_suffix_of_mem (h : Blames n es ts rest) {e : ParseError} (mem : e ∈ es) :
    ∃ us : Tokens, us <:+ ts ∧ e.TrueOf us.current := by
  induction h with
  | nothing _ => cases mem
  | @token _ _ _ _ us _ further isTrue _ _ ih =>
    rcases List.mem_cons.mp mem with rfl | later
    · exact ⟨us, further, isTrue⟩
    · obtain ⟨vs, inside, isTrue'⟩ := ih later
      exact ⟨vs, (inside.trans us.advance_suffix).trans further, isTrue'⟩
  | @atEnd _ _ _ _ us _ further isTrue _ _ ih =>
    rcases List.mem_cons.mp mem with rfl | later
    · exact ⟨us, further, isTrue⟩
    · obtain ⟨vs, inside, isTrue'⟩ := ih later
      exact ⟨vs, inside.trans further, isTrue'⟩

end Blames

/-! ## The errors of a source -/

/-- The errors of a source blame its tokens, and the end of the input is blamed at most once for each
brace that is opened, and once more. -/
theorem blames_parse (text : String) :
    ∃ n rest, Blames n (parse text).2 (tokenize text) rest ∧
      n ≤ Tokens.openBraces (tokenize text) + 1 := by
  have lexical : Tokens.Lexical (tokenize text) := fun t ht => Source.lexical_of_mem_tokens ht
  obtain ⟨m, recorded, rest, reach, run⟩ := exists_run_program (tokenize text)
  obtain ⟨n, blames, budget⟩ :=
    Parser.blames_block (Parser.blaming_expression maxOpen) lexical run
  refine ⟨n, rest.advance, ?_, by omega⟩
  rwa [parse_of_run run]

/-- An error of a source says what is true of a token with a lexical form. -/
theorem exists_trueOf_of_mem_errors {text : String} {e : ParseError} (h : e ∈ (parse text).2) :
    ∃ t : Token, t.Lexical ∧ e.TrueOf t := by
  obtain ⟨n, rest, blames, -⟩ := blames_parse text
  obtain ⟨us, inside, isTrue⟩ := blames.exists_suffix_of_mem h
  have lexical : Tokens.Lexical (tokenize text) := fun t ht => Source.lexical_of_mem_tokens ht
  exact ⟨us.current, (lexical.suffix inside).current, isTrue⟩

/-- The source of a text is made of its bytes. -/
theorem Source.ofString_eq_ofBytes (text : String) :
    Source.ofString text = Source.ofBytes text.toUTF8.data.toList := by
  have encoded : text.toUTF8 = text.toList.utf8Encode := by
    rw [String.toUTF8, ← String.toByteArray_ofList, String.ofList_toList]
  rw [encoded, List.utf8Encode, List.data_toByteArray]
  simp [Source.ofString, Source.ofBytes, List.map_flatMap]

/-- The byte of an illegal token is one of the bytes that were read. -/
theorem byte_mem_of_illegal {bytes : List UInt8} {t : Token} (h : t ∈ (Source.ofBytes bytes).tokens)
    (illegal : t.kind = .illegal) : t.byte ∈ bytes := by
  obtain ⟨l, rfl, read⟩ := Layout.exists_eq_bytes bytes
  rw [read, List.mem_append, List.mem_singleton] at h
  rcases h with inside | rfl
  · obtain ⟨p, hp, rfl⟩ := List.mem_map.mp inside
    have form := (l.isLexeme p hp).lexical
    rw [Token.Lexical, illegal] at form
    obtain ⟨c, literal, -⟩ := form
    have alone : p.1.bytes = [p.1.byte] := by simp [Token.bytes, Token.byte, literal]
    have written : p.1.byte ∈ writtenPieces l.pieces :=
      List.mem_flatMap.mpr ⟨p, hp, by simp [alone]⟩
    exact List.mem_append_right _ written
  · cases illegal

/-- The errors of a source are true and in order. There are places in its tokens, one for each error,
such that each error says what is true of the token at its place; the places get larger and larger, as
long as they are not that of the end of the input, and at most one more than there are opening braces
are there. Only bytes of the source are reported as illegal. -/
theorem errors_parse_truthful (text : String) :
    ∃ places : List Nat,
      List.Forall₂ (fun e k => ∃ t, (tokenize text)[k]? = some t ∧ e.TrueOf t) (parse text).2
        places ∧
      places.Pairwise (fun j k => j ≤ k ∧ (j = k → (tokenize text)[k]? = some Token.eof)) ∧
      places.countP (fun k => (tokenize text)[k]? = some Token.eof) ≤
        Tokens.openBraces (tokenize text) + 1 ∧
      ∀ byte, .illegalByte byte ∈ (parse text).2 → byte ∈ text.toUTF8.data := by
  obtain ⟨n, rest, blames, budget⟩ := blames_parse text
  obtain ⟨places, about, ordered, atEnd, -⟩ := blames.exists_places (List.suffix_refl _)
  refine ⟨places, about, ordered, atEnd.trans_le budget, fun byte reported => ?_⟩
  obtain ⟨us, inside, illegal, rfl⟩ := blames.exists_suffix_of_mem reported
  have notEof : us.current.kind ≠ .eof := by rw [illegal]; decide
  have here : us.current ∈ us := by
    rw [Tokens.eq_cons_of_current notEof]
    exact List.mem_cons_self
  have read : us.current ∈ (Source.ofBytes text.toUTF8.data.toList).tokens := by
    rw [← Source.ofString_eq_ofBytes]
    exact inside.subset here
  exact Array.mem_toList_iff.mp (byte_mem_of_illegal read illegal)

/-- The end of the input is blamed by the statement that is cut off and by both bodies that are open. -/
example : (parse "fn() \x7b fn() \x7b let").2 =
    [.unexpectedToken .identifier Token.eof, .unexpectedToken .closeBrace Token.eof,
      .unexpectedToken .closeBrace Token.eof] := by
  decide +kernel

end MonkeySyntax
