import Mathlib.Data.List.Chain
import MonkeySyntax.Proofs.Lexer

/-!
# Laying tokens out

A `Layout` is a sequence of tokens written down with runs of blanks before, between and behind them.
The blanks may be missing except where one token would go on into the next (`Token.Apart`).

Lexing and laying out are inverse to each other, so that a source is nothing but a layout of its
tokens:

* `exists_layout_of_bytes` — every sequence of bytes is a layout of the tokens that it is read as.
* `tokens_bytes_layout` — every layout is read as its tokens.
-/

namespace MonkeySyntax

/-! ## Bytes and characters -/

/-- The byte separates tokens. -/
def isBlankByte (b : UInt8) : Bool := isBlank (Char.ofUInt8 b)

/-- The bytes that a token stands for: one for each character of its literal, of the same code. -/
def Token.bytes (t : Token) : List UInt8 := t.literal.toList.map (·.toNat.toUInt8)

theorem ofUInt8_toUInt8_toNat {c : Char} (small : c.toNat < 256) :
    Char.ofUInt8 c.toNat.toUInt8 = c := by
  apply Char.ext
  apply UInt32.toNat_inj.mp
  show (UInt8.ofNat c.toNat).toUInt32.toNat = c.toNat
  rw [UInt8.toNat_toUInt32, UInt8.toNat_ofNat']
  omega

theorem toNat_ofUInt8_lt (b : UInt8) : (Char.ofUInt8 b).toNat < 256 := by
  show b.toUInt32.toNat < 256
  rw [UInt8.toNat_toUInt32]
  exact b.toNat_lt

namespace Source

/-- The bytes can be told from their characters. -/
theorem map_toUInt8_ofBytes (bs : List UInt8) : (ofBytes bs).map (·.toNat.toUInt8) = bs := by
  rw [ofBytes, List.map_map, List.map_congr_left (g := id), List.map_id]
  intro b _
  show UInt8.ofNat b.toUInt32.toNat = b
  simp

@[simp]
theorem ofBytes_nil : ofBytes [] = [] := rfl

@[simp]
theorem ofBytes_append (as bs : List UInt8) : ofBytes (as ++ bs) = ofBytes as ++ ofBytes bs :=
  List.map_append

end Source

/-! ## Lexemes -/

/-- The token is one that stands for bytes of a source: not the end of the input, of the lexical form
of its kind, and with a literal of one-byte characters. -/
structure Token.IsLexeme (t : Token) : Prop where
  lexical : t.Lexical
  notEof : t.kind ≠ .eof
  oneByte : ∀ c ∈ t.literal.toList, c.toNat < 256

/-- A lexeme is read from its own bytes. -/
theorem Token.IsLexeme.ofBytes_bytes {t : Token} (h : t.IsLexeme) :
    Source.ofBytes t.bytes = t.literal.toList := by
  unfold Source.ofBytes Token.bytes
  rw [List.map_map, List.map_congr_left (g := id), List.map_id]
  intro c hc
  exact ofUInt8_toUInt8_toNat (h.oneByte c hc)

/-- What a token stands for holds no blanks. -/
theorem isBlank_of_mem_literal {t : Token} (h : t.Lexical) (notEof : t.kind ≠ .eof) {c : Char}
    (hc : c ∈ t.literal.toList) : isBlank c = false := by
  obtain ⟨kind, literal⟩ := t
  cases kind with
  | identifier => exact isBlank_eq_false ((h.isName rfl).1.2.1 c hc)
  | integer => exact isBlank_eq_false (isWordChar_of_isDigit ((h.isNumeral rfl).2 c hc))
  | illegal =>
    obtain ⟨d, rfl, blank, -⟩ := h
    simp_all
  | eof => exact absurd rfl notEof
  | _ =>
    cases Option.some.inj h
    have noBlank := List.all_eq_true (p := fun c => !isBlank c).mp (by decide) c hc
    simpa using noBlank

theorem filter_blanks {gap : List UInt8} (h : ∀ b ∈ gap, isBlankByte b = true) :
    gap.filter (!isBlankByte ·) = [] := by
  simpa using h

theorem Token.IsLexeme.filter_bytes {t : Token} (h : t.IsLexeme) :
    t.bytes.filter (!isBlankByte ·) = t.bytes := by
  rw [List.filter_eq_self]
  intro b hb
  have inLiteral : Char.ofUInt8 b ∈ t.literal.toList := by
    rw [← h.ofBytes_bytes]
    exact List.mem_map_of_mem hb
  simp [isBlankByte, isBlank_of_mem_literal h.lexical h.notEof inLiteral]

/-- The kind of a word is the one that the table of keywords says. -/
theorem Token.Lexical.kind_eq_ofWord {t : Token} (h : t.Lexical) (word : IsWord t.literal) :
    t.kind = Kind.ofWord t.literal := by
  obtain ⟨kind, literal⟩ := t
  cases kind with
  | identifier => exact (h.isName rfl).2.symm
  | integer =>
    obtain ⟨nonempty, digits⟩ := h.isNumeral rfl
    cases hs : literal.toList with
    | nil => exact absurd (String.toList_eq_nil_iff.mp hs) nonempty
    | cons c cs =>
      have digit : c.isDigit = true := digits c (by simp [hs])
      have noDigit : c.isDigit = false := word.2.2 c (by simp [hs])
      simp [digit] at noDigit
  | illegal =>
    obtain ⟨c, rfl, -, -, noWord⟩ := h
    have isWord : isWordChar c = true := word.2.1 c (by simp)
    simp [isWord] at noWord
  | fnWord | letWord | trueWord | falseWord | ifWord | elseWord | returnWord =>
    cases Option.some.inj h
    decide
  | _ =>
    cases Option.some.inj h
    exact absurd word (by decide)

/-! ## What is scanned -/

namespace Source

/-- A run of characters stops where the class does. -/
theorem stop_dropWhile (p : Char → Bool) (cs : Source) :
    ∀ d ∈ (cs.dropWhile p).head?, p d = false := by
  intro d hd
  have stop := List.head?_dropWhile_not p cs
  rw [Option.mem_def.mp hd] at stop
  simpa using stop

/-- The token of a symbol stands apart from what does not make it a longer operator. -/
theorem apart_symbol {c : Char} {kind : Kind} (h : Kind.ofSymbol? c = some kind) {rest : Source}
    (apart : c = '=' ∨ c = '!' → ∀ d ∈ rest.head?, d ≠ '=') :
    Token.Apart ⟨kind, String.singleton c⟩ rest := by
  unfold Kind.ofSymbol? at h
  split at h <;> cases h
  case h_1 => exact apart (.inl rfl)
  case h_2 => exact apart (.inr rfl)
  all_goals exact fun _ _ => trivial

/-- The token of a word, reserved or not, stands apart from what no word goes on with. -/
theorem apart_word (word : String) {rest : Source}
    (stop : ∀ d ∈ rest.head?, isWordChar d = false) :
    Token.Apart ⟨Kind.ofWord word, word⟩ rest := by
  intro d hd
  have noWord := stop d hd
  rcases ofWord_cases word with name | reserved
  · rw [name]
    exact noWord
  · simp only [keywords, List.mem_cons, Prod.mk.injEq, List.not_mem_nil, or_false] at reserved
    rcases reserved with h | h | h | h | h | h | h <;> rw [h.2] <;> exact noWord

/-- The token in front and what is left behind it make up the source, and what is left does not
continue the token. -/
theorem scan_cut (c : Char) (rest : Source) :
    (scan (c :: rest)).1.literal.toList ++ (scan (c :: rest)).2 = c :: rest ∧
      (scan (c :: rest)).1.Apart (scan (c :: rest)).2 := by
  rcases twoCharacters_or_apart c rest with ⟨behind, rfl | rfl, rfl⟩ | apart
  · exact ⟨by simp [scan], fun _ _ => trivial⟩
  · exact ⟨by simp [scan], fun _ _ => trivial⟩
  · cases symbol : Kind.ofSymbol? c with
    | some kind =>
      rw [scan_symbol symbol apart]
      exact ⟨by simp, apart_symbol symbol apart⟩
    | none =>
      by_cases digit : c.isDigit = true
      · rw [scan_digit digit]
        exact ⟨by simp, stop_dropWhile _ rest⟩
      · by_cases word : isWordChar c = true
        · rw [scan_wordChar word (Bool.eq_false_iff.mpr digit)]
          exact ⟨by simp, apart_word _ (stop_dropWhile _ rest)⟩
        · rw [scan_illegal symbol (Bool.eq_false_iff.mpr word)]
          exact ⟨by simp, fun _ _ => trivial⟩

/-- What is read in front of bytes is a run of blanks and a lexeme, unless there are only blanks. -/
theorem next_ofBytes {bytes : List UInt8} (notEof : (next (ofBytes bytes)).1.kind ≠ .eof) :
    ∃ gap t rest, bytes = gap ++ (t.bytes ++ rest) ∧ (∀ b ∈ gap, isBlankByte b = true) ∧
      t.IsLexeme ∧ t.Apart (ofBytes rest) ∧ next (ofBytes bytes) = (t, ofBytes rest) := by
  have lexical := lexical_next (ofBytes bytes)
  cases hs : (ofBytes bytes).dropWhile isBlank with
  | nil => exact absurd (by rw [next, hs]; rfl) notEof
  | cons c cs =>
    obtain ⟨whole, apart⟩ := scan_cut c cs
    have front : next (ofBytes bytes) = scan (c :: cs) := by rw [next, hs]
    rw [front] at lexical notEof ⊢
    cases scanned : scan (c :: cs) with
    | mk t behind =>
      rw [scanned] at lexical notEof whole apart
      -- the bytes are cut where their characters are
      have cut : ofBytes bytes = (ofBytes bytes).takeWhile isBlank ++ (t.literal.toList ++ behind) := by
        rw [whole, ← hs, List.takeWhile_append_dropWhile]
      obtain ⟨gap, others, rfl, gapChars, othersChars⟩ := List.map_eq_append_iff.mp cut
      obtain ⟨word, rest, rfl, wordChars, rfl⟩ := List.map_eq_append_iff.mp othersChars
      have blank : ∀ b ∈ gap, isBlankByte b = true := by
        intro b hb
        have inGap : Char.ofUInt8 b ∈ gap.map Char.ofUInt8 := List.mem_map_of_mem hb
        rw [gapChars] at inGap
        exact List.mem_takeWhile_imp (p := isBlank) inGap
      have oneByte : ∀ c ∈ t.literal.toList, c.toNat < 256 := by
        rw [← wordChars]
        simpa using fun b _ => toNat_ofUInt8_lt b
      have same : t.bytes = word := by
        rw [Token.bytes, ← wordChars]
        exact map_toUInt8_ofBytes word
      subst same
      exact ⟨gap, t, rest, rfl, blank, ⟨lexical, notEof, oneByte⟩, apart, rfl⟩

end Source

/-! ## Layouts -/

/-- Tokens written down, each with the bytes behind it. -/
def writtenPieces (pieces : List (Token × List UInt8)) : List UInt8 :=
  pieces.flatMap fun p => p.1.bytes ++ p.2

@[simp]
theorem writtenPieces_cons (p : Token × List UInt8) (pieces : List (Token × List UInt8)) :
    writtenPieces (p :: pieces) = p.1.bytes ++ (p.2 ++ writtenPieces pieces) :=
  List.append_assoc _ _ _

theorem filter_writtenPieces {pieces : List (Token × List UInt8)}
    (blankGap : ∀ p ∈ pieces, ∀ b ∈ p.2, isBlankByte b = true)
    (isLexeme : ∀ p ∈ pieces, p.1.IsLexeme) :
    (writtenPieces pieces).filter (!isBlankByte ·) = pieces.flatMap (·.1.bytes) := by
  induction pieces with
  | nil => rfl
  | cons p pieces ih =>
    rw [List.forall_mem_cons] at blankGap isLexeme
    simp [isLexeme.1.filter_bytes, filter_blanks blankGap.1, ih blankGap.2 isLexeme.2]

/-- Tokens with blanks before, between and behind them. Where there are no blanks between two tokens,
the second does not continue the first. -/
structure Layout where
  /-- The blanks in front of the first token. -/
  lead : List UInt8
  /-- The tokens, each with the blanks behind it. -/
  pieces : List (Token × List UInt8)
  blank_lead : ∀ b ∈ lead, isBlankByte b = true
  blank_gap : ∀ p ∈ pieces, ∀ b ∈ p.2, isBlankByte b = true
  isLexeme : ∀ p ∈ pieces, p.1.IsLexeme
  apart : pieces.IsChain fun p q => p.2 = [] → p.1.Apart q.1.literal.toList

namespace Layout

/-- The tokens that are laid out. -/
def tokens (l : Layout) : List Token := l.pieces.map Prod.fst

/-- The layout as it is written down. -/
def bytes (l : Layout) : List UInt8 := l.lead ++ writtenPieces l.pieces

/-- Without its blanks, a layout is the literals of its tokens. -/
theorem filter_bytes (l : Layout) :
    l.bytes.filter (!isBlankByte ·) = l.tokens.flatMap Token.bytes := by
  rw [bytes, List.filter_append, filter_blanks l.blank_lead, List.nil_append,
    filter_writtenPieces l.blank_gap l.isLexeme, tokens, List.flatMap_map]

/-! ### From layouts to tokens -/

/-- A token stands apart from blanks. -/
theorem apart_blank {c : Char} (h : isBlank c = true) (t : Token) (rest : Source) :
    t.Apart (c :: rest) := by
  have noWord : isWordChar c = false := by
    by_contra word
    simp [isBlank_eq_false (Bool.not_eq_false _ ▸ word)] at h
  have noEquals : c ≠ '=' := by
    rintro rfl
    exact absurd h (by decide)
  exact (Source.separates_cons ⟨noWord, noEquals⟩ rest).apart t

/-- A token stands apart from what is written behind it. -/
theorem apart_behind {t : Token} {gap : List UInt8} {pieces : List (Token × List UInt8)}
    (blank : ∀ b ∈ gap, isBlankByte b = true) (isLexeme : ∀ p ∈ pieces, p.1.IsLexeme)
    (apart : ∀ q ∈ pieces.head?, gap = [] → t.Apart q.1.literal.toList) :
    t.Apart (Source.ofBytes (gap ++ writtenPieces pieces)) := by
  cases gap with
  | cons b gap => exact apart_blank (blank b List.mem_cons_self) t _
  | nil =>
    cases pieces with
    | nil => exact fun c hc => absurd hc (by simp [writtenPieces])
    | cons q pieces =>
      have first := isLexeme q List.mem_cons_self
      obtain ⟨c, cs, literal, -⟩ := Source.head_literal first.lexical
      have here := apart q rfl rfl
      rw [literal] at here
      have front : Source.ofBytes (writtenPieces (q :: pieces)) =
          c :: (cs ++ Source.ofBytes (q.2 ++ writtenPieces pieces)) := by
        simp [first.ofBytes_bytes, literal]
      rw [List.nil_append, front]
      exact here

theorem tokens_blanks {gap : List UInt8} (blank : ∀ b ∈ gap, isBlankByte b = true)
    (rest : Source) : Source.tokens (Source.ofBytes gap ++ rest) = Source.tokens rest := by
  induction gap with
  | nil => rfl
  | cons b gap ih =>
    rw [List.forall_mem_cons] at blank
    show Source.tokens (Char.ofUInt8 b :: (Source.ofBytes gap ++ rest)) = _
    rw [Source.tokens_blank blank.1, ih blank.2]

theorem tokens_writtenPieces {pieces : List (Token × List UInt8)}
    (blankGap : ∀ p ∈ pieces, ∀ b ∈ p.2, isBlankByte b = true)
    (isLexeme : ∀ p ∈ pieces, p.1.IsLexeme)
    (apart : pieces.IsChain fun p q => p.2 = [] → p.1.Apart q.1.literal.toList) :
    Source.tokens (Source.ofBytes (writtenPieces pieces)) =
      pieces.map Prod.fst ++ [Token.eof] := by
  induction pieces with
  | nil => exact Source.tokens_nil
  | cons p pieces ih =>
    rw [List.forall_mem_cons] at blankGap isLexeme
    rw [List.isChain_cons] at apart
    have behind := apart_behind blankGap.1 isLexeme.2 apart.1
    have split : Source.ofBytes (writtenPieces (p :: pieces)) =
        p.1.literal.toList ++ Source.ofBytes (p.2 ++ writtenPieces pieces) := by
      simp [isLexeme.1.ofBytes_bytes]
    rw [split, Source.tokens_literal_append isLexeme.1.lexical isLexeme.1.notEof behind,
      Source.ofBytes_append, tokens_blanks blankGap.1, ih blankGap.2 isLexeme.2 apart.2]
    rfl

/-! ### From bytes to layouts -/

/-- A token behind some blanks and in front of a layout. -/
def cons (l : Layout) (gap : List UInt8) (t : Token) (blank : ∀ b ∈ gap, isBlankByte b = true)
    (lexeme : t.IsLexeme) (apart : t.Apart (Source.ofBytes l.bytes)) : Layout where
  lead := gap
  pieces := (t, l.lead) :: l.pieces
  blank_lead := blank
  blank_gap := List.forall_mem_cons.mpr ⟨l.blank_lead, l.blank_gap⟩
  isLexeme := List.forall_mem_cons.mpr ⟨lexeme, l.isLexeme⟩
  apart := by
    refine List.isChain_cons.mpr ⟨?_, l.apart⟩
    intro q first noGap c hc
    -- the literal of the next piece is where the layout starts
    obtain ⟨others, pieces⟩ := List.head?_eq_some_iff.mp first
    have front : Source.ofBytes l.bytes =
        q.1.literal.toList ++ Source.ofBytes (q.2 ++ writtenPieces others) := by
      have lexeme := l.isLexeme q (by simp [pieces])
      have noLead : l.lead = [] := noGap
      simp [bytes, noLead, pieces, lexeme.ofBytes_bytes]
    apply apart
    rw [front, List.head?_append, Option.mem_def.mp hc]
    rfl

/-- Every sequence of bytes is a layout of what it is read as. -/
theorem exists_eq_bytes (bytes : List UInt8) :
    ∃ l : Layout, l.bytes = bytes ∧ (Source.ofBytes bytes).tokens = l.tokens ++ [Token.eof] := by
  -- the induction is on the bytes that are left, of which every token takes at least one
  induction hn : bytes.length using Nat.strongRecOn generalizing bytes with
  | ind n ih =>
    rcases Source.next_cases (Source.ofBytes bytes) with ⟨atEnd, blanks⟩ | ⟨-, notEof⟩
    · have blank : ∀ b ∈ bytes, isBlankByte b = true := by
        simpa [Source.ofBytes, isBlankByte] using blanks
      refine ⟨⟨bytes, [], blank, by simp, by simp, by simp⟩, List.append_nil bytes, ?_⟩
      rw [Source.tokens_eq, atEnd]
      rfl
    · obtain ⟨gap, t, rest, rfl, blank, lexeme, apart, front⟩ := Source.next_ofBytes notEof
      have shorter : rest.length < n := by
        have less := Source.next_length_lt notEof
        rw [front] at less
        simpa [Source.ofBytes, ← hn] using less
      obtain ⟨l, rfl, later⟩ := ih rest.length shorter rest rfl
      refine ⟨l.cons gap t blank lexeme apart, by simp [bytes, cons], ?_⟩
      rw [Source.tokens_eq, front, if_neg lexeme.notEof, later]
      rfl

end Layout

/-! ## Lexing and laying out -/

/-- Every sequence of bytes is a layout of the tokens that it is read as. So nothing is lost but the
blanks, every token has the form of its kind, and it is as long as it can be. -/
theorem exists_layout_of_bytes (bytes : List UInt8) :
    ∃ l : Layout, l.bytes = bytes ∧
      (Source.ofBytes bytes).tokens = l.tokens ++ [Token.eof] ∧
      l.tokens.flatMap Token.bytes = bytes.filter (!isBlankByte ·) ∧
      ∀ t ∈ l.tokens, IsWord t.literal → t.kind = Kind.ofWord t.literal := by
  obtain ⟨l, rfl, read⟩ := Layout.exists_eq_bytes bytes
  have keyword : ∀ t ∈ l.tokens, IsWord t.literal → t.kind = Kind.ofWord t.literal := by
    intro t ht
    obtain ⟨p, hp, rfl⟩ := List.mem_map.mp ht
    exact (l.isLexeme p hp).lexical.kind_eq_ofWord
  exact ⟨l, rfl, read, l.filter_bytes.symm, keyword⟩

/-- Every layout is read as its tokens, whatever blanks there are where none are needed. -/
theorem tokens_bytes_layout (l : Layout) :
    (Source.ofBytes l.bytes).tokens = l.tokens ++ [Token.eof] := by
  rw [Layout.bytes, Source.ofBytes_append, Layout.tokens_blanks l.blank_lead]
  exact Layout.tokens_writtenPieces l.blank_gap l.isLexeme l.apart

/-- No blanks are needed behind an integer in front of a word, nor behind `==` in front of `=`. -/
example : tokenize "12ab===!" =
    [⟨.integer, "12"⟩, ⟨.identifier, "ab"⟩, ⟨.equals, "=="⟩, ⟨.assignment, "="⟩, ⟨.bang, "!"⟩,
      Token.eof] := by
  cbv

end MonkeySyntax
