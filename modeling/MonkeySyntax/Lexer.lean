import MonkeySyntax.Token

/-!
# From source text to tokens

The lexer reads bytes. A `Source` is the list of bytes still to be read, each as the character of the
same code, so that an ASCII text is its own source and a literal is a piece of the source.

* `Source.next` — skip blanks, then read one token: a two-character operator, a one-character symbol,
  a maximal run of digits, a maximal word, or any other byte as an `illegal` token. Lexing never
  fails; at the end it gives `Token.eof` for ever.
* `Source.next?`, `Source.remaining` — the same as a sequence that stops before the end of the input.
* `Source.tokens`, `tokenize` — all tokens, closed by one `Token.eof`.

The loops carry an accumulator; `Source.tokens_eq` and `Source.remaining_eq` unfold them without it.
-/

namespace MonkeySyntax

/-- The bytes still to be read, one character of code 0 to 255 for each. -/
abbrev Source := List Char

/-! ## Classes of characters -/

/-- Space, tab, line feed and carriage return separate tokens. -/
def isBlank (c : Char) : Bool :=
  c = ' ' || c = '\t' || c = '\n' || c = '\r'

/-- Words are made of ASCII letters, ASCII digits and underscores. -/
def isWordChar (c : Char) : Bool :=
  c.isAlphanum || c = '_'

/-- The kind of a one-character operator or punctuation mark. -/
def Kind.ofSymbol? : Char → Option Kind
  | '=' => some .assignment
  | '!' => some .bang
  | '+' => some .plus
  | '-' => some .minus
  | '*' => some .asterisk
  | '/' => some .slash
  | '<' => some .lessThan
  | '>' => some .greaterThan
  | ',' => some .comma
  | ';' => some .semicolon
  | '(' => some .openParen
  | ')' => some .closeParen
  | '{' => some .openBrace
  | '}' => some .closeBrace
  | _ => none

namespace Source

/-! ## Making a source -/

/-- The source made of the given bytes. -/
def ofBytes (bytes : List UInt8) : Source :=
  bytes.map Char.ofUInt8

/-- The source of a text: the bytes of its UTF-8 encoding. -/
def ofString (text : String) : Source :=
  text.toList.flatMap fun c => ofBytes (String.utf8EncodeChar c)

/-! ## One token -/

/-- The token at the front of a source that does not start with a blank, and what follows it. -/
def scan : Source → Token × Source
  | [] => (Token.eof, [])
  | '=' :: '=' :: rest => (⟨.equals, "=="⟩, rest)
  | '!' :: '=' :: rest => (⟨.notEquals, "!="⟩, rest)
  | c :: rest =>
    match Kind.ofSymbol? c with
    | some kind => (⟨kind, String.singleton c⟩, rest)
    | none =>
      if c.isDigit then
        (⟨.integer, String.ofList (c :: rest.takeWhile Char.isDigit)⟩, rest.dropWhile Char.isDigit)
      else if isWordChar c then
        let word := String.ofList (c :: rest.takeWhile isWordChar)
        (⟨Kind.ofWord word, word⟩, rest.dropWhile isWordChar)
      else
        (⟨.illegal, String.singleton c⟩, rest)

/-- Skip blanks and read one token; `Token.eof` when only blanks are left. -/
def next (src : Source) : Token × Source :=
  scan (src.dropWhile isBlank)

/-- Like `next`, but nothing at the end of the input. -/
def next? (src : Source) : Option Token × Source :=
  let (token, rest) := src.next
  (if token.kind = .eof then none else some token, rest)

/-! ## Every token but the last shortens the source -/

theorem length_dropWhile_le (p : Char → Bool) (cs : List Char) :
    (cs.dropWhile p).length ≤ cs.length :=
  (List.dropWhile_suffix p).length_le

theorem scan_length_lt (c : Char) (rest : Source) :
    (scan (c :: rest)).2.length < (c :: rest).length := by
  have digits := length_dropWhile_le Char.isDigit rest
  have letters := length_dropWhile_le isWordChar rest
  unfold scan
  split
  · contradiction
  · rename_i behind h
    simp only [(List.cons.inj h).2, List.length_cons]
    omega
  · rename_i behind h
    simp only [(List.cons.inj h).2, List.length_cons]
    omega
  · rename_i h
    cases h
    split
    · simp
    · split
      · simpa using Nat.lt_succ_of_le digits
      · split
        · simpa using Nat.lt_succ_of_le letters
        · simp

theorem next_length_lt {src : Source} (h : src.next.1.kind ≠ .eof) :
    src.next.2.length < src.length := by
  have skip := length_dropWhile_le isBlank src
  unfold next at *
  cases hs : src.dropWhile isBlank with
  | nil => simp [hs, scan, Token.eof] at h
  | cons c rest =>
    have step := scan_length_lt c rest
    rw [hs] at skip
    exact Nat.lt_of_lt_of_le step skip

theorem next?_length_lt {src : Source} {t : Token} (h : src.next?.1 = some t) :
    src.next?.2.length < src.length := by
  have notAtEnd : src.next.1.kind ≠ .eof := fun atEnd => by simp [next?, atEnd] at h
  exact next_length_lt notAtEnd

/-! ## All tokens -/

/-- The tokens of `src` up to and including the end of the input, after those already read
(latest first). -/
def tokensAfter (seen : List Token) (src : Source) : List Token :=
  if _atEnd : src.next.1.kind = .eof then
    (src.next.1 :: seen).reverse
  else
    tokensAfter (src.next.1 :: seen) src.next.2
termination_by src.length
decreasing_by exact next_length_lt _atEnd

/-- All tokens that are left, closed by the end of the input. -/
def tokens (src : Source) : List Token :=
  tokensAfter [] src

/-- The tokens of `src` before the end of the input, after those already read (latest first). -/
def remainingAfter (seen : List Token) (src : Source) : List Token :=
  match _h : src.next?.1 with
  | none => seen.reverse
  | some t => remainingAfter (t :: seen) src.next?.2
termination_by src.length
decreasing_by exact next?_length_lt _h

/-- All tokens that are left, without the end of the input. -/
def remaining (src : Source) : List Token :=
  remainingAfter [] src

theorem tokensAfter_append (newer older : List Token) (src : Source) :
    tokensAfter (newer ++ older) src = older.reverse ++ tokensAfter newer src := by
  fun_induction tokensAfter newer src with
  | case1 newer src atEnd => rw [tokensAfter]; simp [atEnd]
  | case2 newer src notAtEnd ih => rw [tokensAfter]; simpa [notAtEnd] using ih

theorem tokensAfter_eq (seen : List Token) (src : Source) :
    tokensAfter seen src = seen.reverse ++ tokens src :=
  tokensAfter_append [] seen src

/-- The tokens are the next token and, unless it ends the input, the tokens of the rest. -/
theorem tokens_eq (src : Source) :
    tokens src =
      if src.next.1.kind = .eof then [src.next.1] else src.next.1 :: tokens src.next.2 := by
  rw [tokens, tokensAfter]
  split
  · simp
  · simp [tokensAfter_eq]

theorem remainingAfter_append (newer older : List Token) (src : Source) :
    remainingAfter (newer ++ older) src = older.reverse ++ remainingAfter newer src := by
  fun_induction remainingAfter newer src with
  | case1 newer src atEnd => rw [remainingAfter]; split <;> simp_all
  | case2 newer src t found ih => rw [remainingAfter]; split <;> simp_all

theorem remainingAfter_eq (seen : List Token) (src : Source) :
    remainingAfter seen src = seen.reverse ++ remaining src :=
  remainingAfter_append [] seen src

/-- The remaining tokens are what `next?` gives, one after the other, until it gives nothing. -/
theorem remaining_eq (src : Source) :
    remaining src =
      match src.next?.1 with
      | none => []
      | some t => t :: remaining src.next?.2 := by
  rw [remaining, remainingAfter]
  split
  · rename_i h
    simp [h]
  · rename_i t h
    simp [h, remainingAfter_eq]

end Source

/-- All tokens of a text, closed by one `Token.eof`. -/
def tokenize (text : String) : List Token :=
  (Source.ofString text).tokens

end MonkeySyntax
