import Mathlib.Data.List.TakeWhile
import MonkeySyntax.Proofs.Literal

/-!
# Reading tokens one by one

`Source.scan` by the class of the first character, and from it two facts on whole sources:

* `Source.lexical_of_mem_tokens` — every token has the lexical form of its kind.
* `Source.tokens_literal_append` — a token is read back from its own literal, whatever follows, as
  long as what follows does not continue it (`Token.Apart`).

A `;` continues no token and is continued by none, so it splits a source in two
(`Source.tokens_append_semicolon`).
-/

namespace MonkeySyntax

/-! ## Classes of characters are disjoint -/

theorem isWordChar_of_isDigit {c : Char} (h : c.isDigit = true) : isWordChar c = true := by
  simp [isWordChar, Char.isAlphanum, h]

theorem isDigit_eq_false {c : Char} (h : isWordChar c = false) : c.isDigit = false :=
  Bool.eq_false_iff.mpr fun digit => by simp [isWordChar_of_isDigit digit] at h

theorem ofSymbol?_eq_none {c : Char} (h : isWordChar c = true) : Kind.ofSymbol? c = none := by
  unfold Kind.ofSymbol?
  split <;> first | rfl | exact absurd h (by decide)

theorem toNat_lt_of_isWordChar {c : Char} (h : isWordChar c = true) : c.toNat < 128 := by
  unfold isWordChar Char.isAlphanum Char.isAlpha Char.isUpper Char.isLower Char.isDigit at h
  simp only [Bool.or_eq_true, Bool.and_eq_true, decide_eq_true_eq] at h
  -- each range of letters or digits has an upper end in ASCII
  rcases h with ((⟨-, h⟩ | ⟨-, h⟩) | ⟨-, h⟩) | rfl
  · exact Nat.lt_of_le_of_lt (UInt32.le_iff_toNat_le.mp h) (by decide)
  · exact Nat.lt_of_le_of_lt (UInt32.le_iff_toNat_le.mp h) (by decide)
  · exact Nat.lt_of_le_of_lt (UInt32.le_iff_toNat_le.mp h) (by decide)
  · decide

theorem isBlank_eq_false {c : Char} (h : isWordChar c = true) : isBlank c = false := by
  by_contra blank
  simp only [isBlank, Bool.not_eq_false, Bool.or_eq_true, decide_eq_true_eq] at blank
  rcases blank with ((rfl | rfl) | rfl) | rfl <;> exact absurd h (by decide)

/-- A symbol is written as itself. -/
theorem spelling?_of_ofSymbol? {c : Char} {kind : Kind} (h : Kind.ofSymbol? c = some kind) :
    kind.spelling? = some (String.singleton c) ∧ kind ≠ .eof ∧ isBlank c = false := by
  unfold Kind.ofSymbol? at h
  split at h <;> cases h <;> decide

/-- A word is a name, or it is in the table of keywords with its kind. -/
theorem ofWord_cases (word : String) :
    Kind.ofWord word = .identifier ∨ (word, Kind.ofWord word) ∈ keywords := by
  unfold Kind.ofWord
  cases h : keywords.lookup word with
  | none => exact .inl rfl
  | some kind =>
    obtain ⟨before, after, split, -⟩ := List.lookup_eq_some_iff.mp h
    exact .inr (by simp [split])

/-- A word that is reserved is the one spelling of its kind. -/
theorem spelling?_of_mem_keywords {word : String} {kind : Kind} (h : (word, kind) ∈ keywords) :
    kind.spelling? = some word := by
  simp only [keywords, List.mem_cons, Prod.mk.injEq, List.not_mem_nil, or_false] at h
  rcases h with h | h | h | h | h | h | h <;> obtain ⟨rfl, rfl⟩ := h <;> rfl

theorem ofWord_ne_eof (word : String) : Kind.ofWord word ≠ .eof := by
  intro atEnd
  rcases ofWord_cases word with name | reserved
  · simp [name] at atEnd
  · simp [atEnd, keywords] at reserved

theorem lexical_of_spelling? {kind : Kind} {s : String} (h : kind.spelling? = some s) :
    (⟨kind, s⟩ : Token).Lexical := by
  cases kind <;> first | exact h | cases h

/-- A word makes a token of the kind that the table of keywords says. -/
theorem lexical_word {word : String} (h : IsWord word) :
    (⟨Kind.ofWord word, word⟩ : Token).Lexical := by
  rcases ofWord_cases word with name | reserved
  · rw [name]
    exact ⟨h, name⟩
  · exact lexical_of_spelling? (spelling?_of_mem_keywords reserved)

namespace Source

/-! ## Where a run of characters stops -/

section

variable {p : Char → Bool} {rest : Source}

theorem takeWhile_eq_nil (stop : ∀ c ∈ rest.head?, p c = false) : rest.takeWhile p = [] := by
  cases rest with
  | nil => rfl
  | cons c rest => simp [stop c rfl]

theorem dropWhile_eq_self (stop : ∀ c ∈ rest.head?, p c = false) : rest.dropWhile p = rest := by
  cases rest with
  | nil => rfl
  | cons c rest => simp [stop c rfl]

/-- A character outside the class ends a run, whether or not the run was at its end before. -/
theorem takeWhile_append_stop (cs : Source) (stop : ∀ c ∈ rest.head?, p c = false) :
    (cs ++ rest).takeWhile p = cs.takeWhile p := by
  rw [List.takeWhile_append, takeWhile_eq_nil stop, List.append_nil]
  -- the run ends inside `cs`, or it is the whole of `cs`
  split
  · rename_i whole
    exact ((List.takeWhile_prefix p).eq_of_length whole).symm
  · rfl

theorem dropWhile_append_stop (cs : Source) (stop : ∀ c ∈ rest.head?, p c = false) :
    (cs ++ rest).dropWhile p = cs.dropWhile p ++ rest := by
  rw [List.dropWhile_append, dropWhile_eq_self stop]
  split
  · rename_i whole
    rw [List.isEmpty_iff.mp whole, List.nil_append]
  · rfl

end

/-! ## One token, by the class of the first character -/

/-- Apart from the two-character operators, the first character alone decides. -/
theorem scan_cons {c : Char} {rest : Source}
    (apart : c = '=' ∨ c = '!' → ∀ d ∈ rest.head?, d ≠ '=') :
    scan (c :: rest) =
      match Kind.ofSymbol? c with
      | some kind => (⟨kind, String.singleton c⟩, rest)
      | none =>
        if c.isDigit then
          (⟨.integer, String.ofList (c :: rest.takeWhile Char.isDigit)⟩,
            rest.dropWhile Char.isDigit)
        else if isWordChar c then
          let word := String.ofList (c :: rest.takeWhile isWordChar)
          (⟨Kind.ofWord word, word⟩, rest.dropWhile isWordChar)
        else
          (⟨.illegal, String.singleton c⟩, rest) := by
  rw [scan.eq_def]
  -- the equations of `scan`: no character, the two operators of two characters, any other character
  split
  · contradiction
  · rename_i behind heq
    obtain ⟨rfl, rfl⟩ := List.cons.inj heq
    exact absurd rfl (apart (.inl rfl) '=' rfl)
  · rename_i behind heq
    obtain ⟨rfl, rfl⟩ := List.cons.inj heq
    exact absurd rfl (apart (.inr rfl) '=' rfl)
  · rename_i heq
    obtain ⟨rfl, rfl⟩ := List.cons.inj heq
    rfl

theorem scan_symbol {c : Char} {kind : Kind} (h : Kind.ofSymbol? c = some kind) {rest : Source}
    (apart : c = '=' ∨ c = '!' → ∀ d ∈ rest.head?, d ≠ '=') :
    scan (c :: rest) = (⟨kind, String.singleton c⟩, rest) := by
  rw [scan_cons apart, h]

/-- A character that is no symbol starts no two-character operator. -/
theorem apart_of_noSymbol {c : Char} (h : Kind.ofSymbol? c = none) {rest : Source} :
    c = '=' ∨ c = '!' → ∀ d ∈ rest.head?, d ≠ '=' := by
  rintro (rfl | rfl) <;> exact absurd h (by decide)

theorem scan_digit {c : Char} (h : c.isDigit = true) (rest : Source) :
    scan (c :: rest) =
      (⟨.integer, String.ofList (c :: rest.takeWhile Char.isDigit)⟩,
        rest.dropWhile Char.isDigit) := by
  have noSymbol := ofSymbol?_eq_none (isWordChar_of_isDigit h)
  rw [scan_cons (apart_of_noSymbol noSymbol), noSymbol]
  simp [h]

theorem scan_wordChar {c : Char} (h : isWordChar c = true) (noDigit : c.isDigit = false)
    (rest : Source) :
    scan (c :: rest) =
      (⟨Kind.ofWord (String.ofList (c :: rest.takeWhile isWordChar)),
        String.ofList (c :: rest.takeWhile isWordChar)⟩, rest.dropWhile isWordChar) := by
  have noSymbol := ofSymbol?_eq_none h
  rw [scan_cons (apart_of_noSymbol noSymbol), noSymbol]
  simp [h, noDigit]

theorem scan_illegal {c : Char} (noSymbol : Kind.ofSymbol? c = none) (h : isWordChar c = false)
    (rest : Source) : scan (c :: rest) = (⟨.illegal, String.singleton c⟩, rest) := by
  have noDigit : c.isDigit = false := isDigit_eq_false h
  rw [scan_cons (apart_of_noSymbol noSymbol), noSymbol]
  simp [h, noDigit]

/-! ## Every token has the lexical form of its kind -/

/-- A source that starts with no blank starts with a two-character operator, or its first character
stands apart from the next. -/
theorem twoCharacters_or_apart (c : Char) (rest : Source) :
    (∃ behind, (c = '=' ∨ c = '!') ∧ rest = '=' :: behind) ∨
      (c = '=' ∨ c = '!' → ∀ d ∈ rest.head?, d ≠ '=') := by
  by_cases two : (c = '=' ∨ c = '!') ∧ rest.head? = some '='
  · obtain ⟨behind, hb⟩ := List.head?_eq_some_iff.mp two.2
    exact .inl ⟨behind, two.1, hb⟩
  · exact .inr fun hc d hd hd' => two ⟨hc, hd' ▸ hd⟩

theorem isNumeral_takeWhile {c : Char} (h : c.isDigit = true) (rest : Source) :
    IsNumeral (String.ofList (c :: rest.takeWhile Char.isDigit)) := by
  refine ⟨by simp, ?_⟩
  rw [String.toList_ofList]
  rintro d (_ | ⟨_, hd⟩)
  · exact h
  · exact List.mem_takeWhile_imp hd

theorem isWord_takeWhile {c : Char} (h : isWordChar c = true) (noDigit : c.isDigit = false)
    (rest : Source) : IsWord (String.ofList (c :: rest.takeWhile isWordChar)) := by
  refine ⟨by simp, ?_, ?_⟩
  · rw [String.toList_ofList]
    rintro d (_ | ⟨_, hd⟩)
    · exact h
    · exact List.mem_takeWhile_imp hd
  · simpa using noDigit

theorem lexical_scan {c : Char} (rest : Source) (h : isBlank c = false) :
    (scan (c :: rest)).1.Lexical ∧ (scan (c :: rest)).1.kind ≠ .eof := by
  rcases twoCharacters_or_apart c rest with ⟨behind, rfl | rfl, rfl⟩ | apart
  · exact ⟨rfl, by simp [scan]⟩
  · exact ⟨rfl, by simp [scan]⟩
  · cases symbol : Kind.ofSymbol? c with
    | some kind =>
      obtain ⟨spelling, notEof, -⟩ := spelling?_of_ofSymbol? symbol
      rw [scan_symbol symbol apart]
      exact ⟨lexical_of_spelling? spelling, notEof⟩
    | none =>
      by_cases digit : c.isDigit = true
      · rw [scan_digit digit]
        exact ⟨isNumeral_takeWhile digit rest, by simp⟩
      · by_cases word : isWordChar c = true
        · have noDigit := Bool.eq_false_iff.mpr digit
          rw [scan_wordChar word noDigit]
          exact ⟨lexical_word (isWord_takeWhile word noDigit rest), ofWord_ne_eof _⟩
        · have noWord := Bool.eq_false_iff.mpr word
          rw [scan_illegal symbol noWord]
          exact ⟨⟨c, rfl, h, symbol, noWord⟩, by simp⟩

/-- The token in front is the end of the input or has a lexical form. -/
theorem next_cases (src : Source) :
    (src.next = (Token.eof, []) ∧ src.dropWhile isBlank = []) ∨
      (src.next.1.Lexical ∧ src.next.1.kind ≠ .eof) := by
  unfold next
  cases hs : src.dropWhile isBlank with
  | nil => exact .inl ⟨rfl, rfl⟩
  | cons c rest =>
    refine .inr (lexical_scan rest ?_)
    have stop := List.head?_dropWhile_not isBlank src
    simpa [hs] using stop

theorem lexical_next (src : Source) : src.next.1.Lexical := by
  rcases next_cases src with ⟨atEnd, -⟩ | ⟨lexical, -⟩
  · rw [atEnd]
    exact rfl
  · exact lexical

/-- Every token has the lexical form of its kind. -/
theorem lexical_of_mem_tokens {src : Source} {t : Token} (h : t ∈ src.tokens) : t.Lexical := by
  -- the induction is on the characters that are left, of which every token takes at least one
  induction hn : src.length using Nat.strongRecOn generalizing src with
  | ind n ih =>
    rw [tokens_eq] at h
    split at h
    · rw [List.mem_singleton.mp h]
      exact lexical_next src
    · rename_i notEof
      rcases List.mem_cons.mp h with rfl | later
      · exact lexical_next src
      · exact ih _ (hn ▸ next_length_lt notEof) later rfl

end Source

/-! ## Reading a token back from its literal -/

/-- What follows does not continue the token. -/
def Token.Apart (t : Token) (rest : Source) : Prop :=
  ∀ c ∈ rest.head?,
    match t.kind with
    | .integer => c.isDigit = false
    | .assignment | .bang => c ≠ '='
    | .identifier | .fnWord | .letWord | .trueWord | .falseWord | .ifWord | .elseWord
    | .returnWord => isWordChar c = false
    | _ => True

/-- The source is empty or starts with a character that continues no token. -/
def Source.Separates (rest : Source) : Prop :=
  ∀ c ∈ rest.head?, isWordChar c = false ∧ c ≠ '='

theorem Source.separates_cons {c : Char} (h : isWordChar c = false ∧ c ≠ '=') (rest : Source) :
    Source.Separates (c :: rest) := by
  rintro d ⟨⟩
  exact h

/-- Every token stands apart from what separates. -/
theorem Source.Separates.apart {rest : Source} (h : rest.Separates) (t : Token) :
    t.Apart rest := by
  intro c hc
  obtain ⟨noWord, noEquals⟩ := h c hc
  have noDigit : c.isDigit = false := isDigit_eq_false noWord
  cases t.kind <;> trivial

namespace Source

theorem scan_numeral {s : String} (h : IsNumeral s) {rest : Source}
    (stop : ∀ c ∈ rest.head?, c.isDigit = false) :
    scan (s.toList ++ rest) = (⟨.integer, s⟩, rest) := by
  obtain ⟨nonempty, digits⟩ := h
  cases hs : s.toList with
  | nil => exact absurd (String.toList_eq_nil_iff.mp hs) nonempty
  | cons c cs =>
    rw [hs] at digits
    have all : ∀ d ∈ cs, d.isDigit = true := fun d hd => digits d (List.mem_cons_of_mem c hd)
    rw [List.cons_append, scan_digit (digits c List.mem_cons_self), takeWhile_append_stop cs stop,
      dropWhile_append_stop cs stop, List.takeWhile_eq_self_iff.mpr all,
      List.dropWhile_eq_nil_iff.mpr all, ← hs, String.ofList_toList, List.nil_append]

theorem scan_word {s : String} (h : IsWord s) {rest : Source}
    (stop : ∀ c ∈ rest.head?, isWordChar c = false) :
    scan (s.toList ++ rest) = (⟨Kind.ofWord s, s⟩, rest) := by
  obtain ⟨nonempty, letters, noDigit⟩ := h
  cases hs : s.toList with
  | nil => exact absurd (String.toList_eq_nil_iff.mp hs) nonempty
  | cons c cs =>
    rw [hs] at letters noDigit
    have all : ∀ d ∈ cs, isWordChar d = true := fun d hd => letters d (List.mem_cons_of_mem c hd)
    rw [List.cons_append, scan_wordChar (letters c List.mem_cons_self) (noDigit c rfl),
      takeWhile_append_stop cs stop, dropWhile_append_stop cs stop,
      List.takeWhile_eq_self_iff.mpr all, List.dropWhile_eq_nil_iff.mpr all, ← hs,
      String.ofList_toList, List.nil_append]

/-- A token with a lexical form is read back from its literal. -/
theorem scan_literal_append {t : Token} (h : t.Lexical) (notEof : t.kind ≠ .eof) {rest : Source}
    (apart : t.Apart rest) : scan (t.literal.toList ++ rest) = (t, rest) := by
  obtain ⟨kind, literal⟩ := t
  cases kind with
  | identifier =>
    have name := h.isName rfl
    rw [scan_word name.1 apart, name.2]
  | integer => exact scan_numeral (h.isNumeral rfl) apart
  | illegal =>
    obtain ⟨c, rfl, -, noSymbol, noWord⟩ := h
    rw [String.toList_singleton]
    exact scan_illegal noSymbol noWord rest
  | eof => exact absurd rfl notEof
  | equals | notEquals =>
    cases Option.some.inj h
    rfl
  | assignment =>
    cases Option.some.inj h
    exact scan_symbol rfl fun _ => apart
  | bang =>
    cases Option.some.inj h
    exact scan_symbol rfl fun _ => apart
  | plus | minus | asterisk | slash | lessThan | greaterThan | comma | semicolon | openParen
  | closeParen | openBrace | closeBrace =>
    cases Option.some.inj h
    exact scan_symbol rfl fun twoCharacters => absurd twoCharacters (by decide)
  | fnWord | letWord | trueWord | falseWord | ifWord | elseWord | returnWord =>
    cases Option.some.inj h
    exact scan_word (by decide) apart

/-- A literal does not start with a blank. -/
theorem head_literal {t : Token} (h : t.Lexical) :
    ∃ c cs, t.literal.toList = c :: cs ∧ isBlank c = false := by
  obtain ⟨kind, literal⟩ := t
  -- names and numerals: no word character is a blank
  have ofWordChars (nonempty : literal ≠ "") (all : ∀ c ∈ literal.toList, isWordChar c = true) :
      ∃ c cs, literal.toList = c :: cs ∧ isBlank c = false := by
    cases hs : literal.toList with
    | nil => exact absurd (String.toList_eq_nil_iff.mp hs) nonempty
    | cons c cs => exact ⟨c, cs, rfl, isBlank_eq_false (all c (hs ▸ List.mem_cons_self))⟩
  cases kind with
  | identifier => exact ofWordChars (h.isName rfl).1.1 (h.isName rfl).1.2.1
  | integer =>
    exact ofWordChars (h.isNumeral rfl).1 fun c hc =>
      isWordChar_of_isDigit ((h.isNumeral rfl).2 c hc)
  | illegal =>
    obtain ⟨c, rfl, blank, -⟩ := h
    exact ⟨c, [], String.toList_singleton c, blank⟩
  | _ =>
    cases Option.some.inj h
    exact ⟨_, _, rfl, by decide⟩

/-- A token with a lexical form is read back from its literal, whatever stands apart behind it. -/
theorem tokens_literal_append {t : Token} (h : t.Lexical) (notEof : t.kind ≠ .eof) {rest : Source}
    (apart : t.Apart rest) : tokens (t.literal.toList ++ rest) = t :: tokens rest := by
  obtain ⟨c, cs, literal, blank⟩ := head_literal h
  have front : next (t.literal.toList ++ rest) = (t, rest) := by
    have unskipped : (t.literal.toList ++ rest).dropWhile isBlank = t.literal.toList ++ rest := by
      simp [literal, blank]
    rw [next, unskipped, scan_literal_append h notEof apart]
  rw [tokens_eq, front, if_neg notEof]

/-- Blanks in front do not matter. -/
theorem tokens_blank {c : Char} (h : isBlank c = true) (rest : Source) :
    tokens (c :: rest) = tokens rest := by
  have front : next (c :: rest) = next rest := by simp [next, h]
  rw [tokens_eq, tokens_eq rest, front]

/-- A symbol that is no part of a two-character operator is read as itself. -/
theorem tokens_symbol (c : Char) (kind : Kind) (h : Kind.ofSymbol? c = some kind)
    (alone : c ≠ '=' ∧ c ≠ '!') (rest : Source) : tokens (c :: rest) = kind.token :: tokens rest := by
  obtain ⟨spelling, notEof, blank⟩ := spelling?_of_ofSymbol? h
  have front : next (c :: rest) = (kind.token, rest) := by
    rw [next, List.dropWhile_cons_of_neg (by simp [blank]),
      scan_symbol h fun twoCharacters => (twoCharacters.elim alone.1 alone.2).elim, Kind.token,
      spelling]
    rfl
  rw [tokens_eq, front]
  exact if_neg notEof

/-! ## Splitting a source -/

/-- What is scanned in front does not depend on what follows a character that continues nothing. -/
theorem scan_append {c : Char} {cs rest : Source} (apart : rest.Separates) :
    scan (c :: cs ++ rest) = ((scan (c :: cs)).1, (scan (c :: cs)).2 ++ rest) := by
  have noWord : ∀ d ∈ rest.head?, isWordChar d = false := fun d hd => (apart d hd).1
  have noDigit : ∀ d ∈ rest.head?, d.isDigit = false := fun d hd => isDigit_eq_false (noWord d hd)
  rw [List.cons_append]
  rcases twoCharacters_or_apart c cs with ⟨behind, rfl | rfl, rfl⟩ | here
  · rfl
  · rfl
  · -- a single `=` or `!` at the end of the source does not become a longer operator either
    have there : c = '=' ∨ c = '!' → ∀ d ∈ (cs ++ rest).head?, d ≠ '=' := by
      intro hc d hd
      cases cs with
      | nil => exact (apart d hd).2
      | cons e es => exact here hc d hd
    cases symbol : Kind.ofSymbol? c with
    | some kind => rw [scan_symbol symbol there, scan_symbol symbol here]
    | none =>
      by_cases digit : c.isDigit = true
      · rw [scan_digit digit, scan_digit digit, takeWhile_append_stop cs noDigit,
          dropWhile_append_stop cs noDigit]
      · by_cases word : isWordChar c = true
        · have notDigit := Bool.eq_false_iff.mpr digit
          rw [scan_wordChar word notDigit, scan_wordChar word notDigit,
            takeWhile_append_stop cs noWord, dropWhile_append_stop cs noWord]
        · have notWord := Bool.eq_false_iff.mpr word
          rw [scan_illegal symbol notWord, scan_illegal symbol notWord]

/-- The tokens before the end of the input, one at a time. -/
theorem remaining_eq_ite (src : Source) :
    remaining src =
      if src.next.1.kind = .eof then [] else src.next.1 :: remaining src.next.2 := by
  rw [remaining_eq]
  by_cases atEnd : src.next.1.kind = .eof <;> simp [next?, atEnd]

/-- A source is read piece by piece if no token goes on from one piece to the next. -/
theorem tokens_append (src : Source) {rest : Source} (apart : rest.Separates) :
    tokens (src ++ rest) = remaining src ++ tokens rest := by
  induction hn : src.length using Nat.strongRecOn generalizing src with
  | ind n ih =>
    rw [remaining_eq_ite]
    rcases next_cases src with ⟨atEnd, blanks⟩ | ⟨-, notEof⟩
    · -- there are only blanks in front of `rest`
      have front : next (src ++ rest) = next rest := by
        rw [next, next, List.dropWhile_append, blanks]
        rfl
      rw [if_pos (by rw [atEnd]; rfl), List.nil_append, tokens_eq, tokens_eq rest, front]
    · -- the token in front ends before `rest`
      have front : next (src ++ rest) = (src.next.1, src.next.2 ++ rest) := by
        unfold next at notEof ⊢
        rw [List.dropWhile_append]
        cases hs : src.dropWhile isBlank with
        | nil => exact absurd rfl (hs ▸ notEof)
        | cons c cs => exact scan_append apart
      have later := ih _ (hn ▸ next_length_lt notEof) src.next.2 rfl
      rw [tokens_eq, front, if_neg notEof, if_neg notEof, later, List.cons_append]

theorem tokens_nil : tokens [] = [Token.eof] := by
  rw [tokens_eq]
  rfl

/-- The tokens are those before the end of the input, and its end. -/
theorem tokens_eq_remaining (src : Source) : tokens src = remaining src ++ [Token.eof] := by
  have whole : tokens (src ++ []) = remaining src ++ tokens [] :=
    tokens_append src (by rintro d ⟨⟩)
  rwa [List.append_nil, tokens_nil] at whole

/-- A `;` ends the token in front of it, and the next token starts behind it. -/
theorem tokens_append_semicolon (src rest : Source) :
    tokens (src ++ ';' :: rest) = remaining src ++ Kind.semicolon.token :: tokens rest := by
  rw [tokens_append src (separates_cons (by decide) rest),
    tokens_symbol ';' .semicolon rfl (by decide)]

theorem kind_ne_eof_of_mem_remaining {src : Source} {t : Token} (h : t ∈ src.remaining) :
    t.kind ≠ .eof := by
  induction hn : src.length using Nat.strongRecOn generalizing src with
  | ind n ih =>
    rw [remaining_eq_ite] at h
    split at h
    · cases h
    · rename_i notEof
      rcases List.mem_cons.mp h with rfl | later
      · exact notEof
      · exact ih _ (hn ▸ next_length_lt notEof) later rfl

/-- Where an end piece of the tokens starts with the end of the input, it holds nothing else. -/
theorem eq_of_suffix_tokens {src : Source} {rest : Tokens} (h : rest <:+ src.tokens)
    (atEnd : rest.current.kind = .eof) : rest = [] ∨ rest = [Token.eof] := by
  obtain ⟨c, whole⟩ := h
  rw [tokens_eq_remaining] at whole
  rcases List.append_eq_append_iff.mp whole with ⟨ts, before, rfl⟩ | ⟨ts, -, last⟩
  · cases ts with
    | nil => exact .inr rfl
    | cons t ts =>
      have inside : t ∈ src.remaining := by simp [before]
      exact absurd atEnd (kind_ne_eof_of_mem_remaining inside)
  · cases ts with
    | nil => exact .inr last.symm
    | cons t ts => exact .inl (List.append_eq_nil_iff.mp (List.cons.inj last).2.symm).2

/-! ## Sources of texts -/

theorem ofString_append (s t : String) : ofString (s ++ t) = ofString s ++ ofString t := by
  simp [ofString]

theorem ofBytes_utf8EncodeChar {c : Char} (h : c.toNat < 128) :
    ofBytes (String.utf8EncodeChar c) = [c] := by
  have small : c.val.toNat ≤ 127 := Nat.lt_succ_iff.mp h
  have encoded : String.utf8EncodeChar c = [UInt8.ofNat c.val.toNat] := by
    simp only [String.utf8EncodeChar, if_pos small]
  have same : Char.ofUInt8 (UInt8.ofNat c.val.toNat) = c := by
    apply Char.ext
    apply UInt32.toNat_inj.mp
    show (UInt8.ofNat c.val.toNat).toUInt32.toNat = c.val.toNat
    rw [UInt8.toNat_toUInt32, UInt8.toNat_ofNat']
    omega
  rw [encoded, ofBytes, List.map_singleton, same]

/-- An ASCII text is its own source. -/
theorem ofString_eq_toList {s : String} (h : ∀ c ∈ s.toList, c.toNat < 128) :
    ofString s = s.toList := by
  unfold ofString
  generalize s.toList = cs at h ⊢
  induction cs with
  | nil => rfl
  | cons c cs ih =>
    rw [List.flatMap_cons, ofBytes_utf8EncodeChar (h c List.mem_cons_self),
      ih fun d hd => h d (List.mem_cons_of_mem c hd), List.singleton_append]

/-- Literals are ASCII texts, except those of illegal tokens. -/
theorem toNat_lt_of_mem_literal {t : Token} (h : t.Lexical) (legal : t.kind ≠ .illegal) :
    ∀ c ∈ t.literal.toList, c.toNat < 128 := by
  obtain ⟨kind, literal⟩ := t
  cases kind with
  | identifier => exact fun c hc => toNat_lt_of_isWordChar ((h.isName rfl).1.2.1 c hc)
  | integer =>
    exact fun c hc =>
      toNat_lt_of_isWordChar (isWordChar_of_isDigit ((h.isNumeral rfl).2 c hc))
  | illegal => exact absurd rfl legal
  | _ =>
    cases Option.some.inj h
    refine fun c hc => of_decide_eq_true ?_
    exact List.all_eq_true (p := fun c => decide (c.toNat < 128)).mp (by decide) c hc

/-- In a text, a token with a lexical form is read back from its literal. -/
theorem tokens_ofString_literal {t : Token} (h : t.Lexical) (notEof : t.kind ≠ .eof)
    (legal : t.kind ≠ .illegal) {rest : Source} (apart : t.Apart rest) :
    tokens (ofString t.literal ++ rest) = t :: tokens rest := by
  rw [ofString_eq_toList (toNat_lt_of_mem_literal h legal), tokens_literal_append h notEof apart]

end Source

end MonkeySyntax
