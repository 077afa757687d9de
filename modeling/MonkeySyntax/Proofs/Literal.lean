import MonkeySyntax.Lexer
import MonkeySyntax.Parser.Expression

/-!
# Literals

What the literal of a token looks like, kind by kind, said without the lexer: names, numerals, and
the kinds that are spelled in one way only. `integerValue?_eq_some_iff` ties the parser's reading of
a numeral to its decimal value.
-/

namespace MonkeySyntax

/-! ## Words -/

/-- A non-empty text of word characters that does not start with a digit. -/
def IsWord (s : String) : Prop :=
  s ≠ "" ∧ (∀ c ∈ s.toList, isWordChar c = true) ∧ ∀ c ∈ s.toList.head?, c.isDigit = false

theorem isWord_iff {s : String} : IsWord s ↔ s ≠ "" ∧ s.toList.all isWordChar = true ∧
    s.toList.head?.all (!·.isDigit) = true := by
  simp [IsWord, Option.all_eq_true]

instance : DecidablePred IsWord := fun _ => decidable_of_iff _ isWord_iff.symm

/-- A word that is not reserved. -/
def IsName (s : String) : Prop := IsWord s ∧ Kind.ofWord s = .identifier

instance : DecidablePred IsName := fun _ => inferInstanceAs (Decidable (IsWord _ ∧ _))

/-! ## Numerals -/

/-- A non-empty text of decimal digits. -/
def IsNumeral (s : String) : Prop := s ≠ "" ∧ ∀ c ∈ s.toList, c.isDigit = true

theorem isNumeral_iff {s : String} : IsNumeral s ↔ s ≠ "" ∧ s.toList.all Char.isDigit = true := by
  simp [IsNumeral]

instance : DecidablePred IsNumeral := fun _ => decidable_of_iff _ isNumeral_iff.symm

/-- The number that the digits `cs` denote behind digits that denote `n`. -/
def decimalAfter (n : Nat) (cs : List Char) : Nat :=
  cs.foldl (fun n c => 10 * n + (c.toNat - '0'.toNat)) n

/-- The number that a numeral denotes. -/
def decimal (s : String) : Nat := decimalAfter 0 s.toList

theorem le_decimalAfter (n : Nat) (cs : List Char) : n ≤ decimalAfter n cs := by
  induction cs generalizing n with
  | nil => exact Nat.le_refl n
  | cons c cs ih =>
    have later := ih (10 * n + (c.toNat - '0'.toNat))
    show n ≤ decimalAfter (10 * n + (c.toNat - '0'.toNat)) cs
    omega

theorem appendDigit?_eq_some_iff {n v : Nat} {c : Char} :
    appendDigit? n c = some v ↔
      c.isDigit = true ∧ 10 * n + (c.toNat - '0'.toNat) = v ∧ v ≤ maxInteger := by
  unfold appendDigit?
  dsimp only
  split
  · rename_i inRange
    simp only [Option.some.injEq]
    exact ⟨fun h => ⟨inRange.1, h, h ▸ inRange.2⟩, fun h => h.2.1⟩
  · rename_i outOfRange
    constructor
    · intro h
      cases h
    · rintro ⟨digit, rfl, small⟩
      exact absurd ⟨digit, small⟩ outOfRange

/-- Digits are read one by one, but only the last number has to be small enough: numbers grow. -/
theorem foldlM_appendDigit?_eq_some_iff {n v : Nat} {cs : List Char} (small : n ≤ maxInteger) :
    cs.foldlM appendDigit? n = some v ↔
      (∀ c ∈ cs, c.isDigit = true) ∧ decimalAfter n cs = v ∧ v ≤ maxInteger := by
  induction cs generalizing n with
  | nil =>
    simp only [List.foldlM_nil, Option.pure_def, Option.some.injEq, decimalAfter, List.foldl_nil]
    constructor
    · rintro rfl
      exact ⟨by simp, rfl, small⟩
    · exact fun h => h.2.1
  | cons c cs ih =>
    rw [List.foldlM_cons, Option.bind_eq_bind, Option.bind_eq_some_iff]
    constructor
    · rintro ⟨m, first, later⟩
      obtain ⟨digit, rfl, small'⟩ := appendDigit?_eq_some_iff.mp first
      obtain ⟨digits, value, bound⟩ := (ih small').mp later
      refine ⟨?_, value, bound⟩
      rintro d (_ | ⟨_, hd⟩)
      · exact digit
      · exact digits d hd
    · rintro ⟨digits, value, bound⟩
      -- a number that were too large on the way would be too large at the end
      have grows := le_decimalAfter (10 * n + (c.toNat - '0'.toNat)) cs
      have small' : 10 * n + (c.toNat - '0'.toNat) ≤ maxInteger :=
        Nat.le_trans grows (value ▸ bound)
      refine ⟨10 * n + (c.toNat - '0'.toNat), ?_, (ih small').mpr ⟨?_, value, bound⟩⟩
      · exact appendDigit?_eq_some_iff.mpr ⟨digits c List.mem_cons_self, rfl, small'⟩
      · intro d hd
        exact digits d (List.mem_cons_of_mem c hd)

/-- A literal has a value exactly if it is a numeral for a number in range, and it is that number. -/
theorem integerValue?_eq_some_iff {s : String} {v : Nat} :
    integerValue? s = some v ↔ IsNumeral s ∧ decimal s = v ∧ v ≤ maxInteger := by
  unfold integerValue?
  split
  · rename_i empty
    simp [IsNumeral, empty]
  · rename_i nonempty
    rw [foldlM_appendDigit?_eq_some_iff (Nat.zero_le _)]
    simp [IsNumeral, decimal, nonempty]

/-! ## One spelling -/

/-- The literal of the kinds that have only one. -/
def Kind.spelling? : Kind → Option String
  | illegal | identifier | integer => none
  | eof => some "\x00"
  | assignment => some "="
  | plus => some "+"
  | minus => some "-"
  | bang => some "!"
  | asterisk => some "*"
  | slash => some "/"
  | lessThan => some "<"
  | greaterThan => some ">"
  | equals => some "=="
  | notEquals => some "!="
  | comma => some ","
  | semicolon => some ";"
  | openParen => some "("
  | closeParen => some ")"
  | openBrace => some "\x7b"
  | closeBrace => some "\x7d"
  | fnWord => some "fn"
  | letWord => some "let"
  | trueWord => some "true"
  | falseWord => some "false"
  | ifWord => some "if"
  | elseWord => some "else"
  | returnWord => some "return"

/-- The token of a kind that has only one. -/
def Kind.token (kind : Kind) : Token := ⟨kind, kind.spelling?.getD ""⟩

@[simp]
theorem Kind.kind_token (kind : Kind) : kind.token.kind = kind := rfl

theorem UnaryOp.literal_token (op : UnaryOp) : op.kind.token.literal = op.symbol := by
  cases op <;> rfl

theorem BinaryOp.literal_token (op : BinaryOp) : op.kind.token.literal = op.symbol := by
  cases op <;> rfl

theorem UnaryOp.kind_ne_eof (op : UnaryOp) : op.kind ≠ .eof := by
  cases op <;> decide

theorem BinaryOp.kind_ne_eof (op : BinaryOp) : op.kind ≠ .eof := by
  cases op <;> decide

/-- Whether an operand can start with a token of this kind. -/
def Kind.startsOperand : Kind → Bool
  | minus | bang | integer | trueWord | falseWord | openParen | identifier | fnWord => true
  | _ => false

/-! ## Lexical form -/

/-- The token has a literal that the lexical rules give to its kind. -/
def Token.Lexical (t : Token) : Prop :=
  match t.kind with
  | .identifier => IsName t.literal
  | .integer => IsNumeral t.literal
  | .illegal =>
    ∃ c, t.literal = String.singleton c ∧ isBlank c = false ∧ Kind.ofSymbol? c = none ∧
      isWordChar c = false
  | kind => kind.spelling? = some t.literal

/-- A token of a kind with one spelling is that kind's token. -/
theorem Token.Lexical.eq_token {t : Token} (h : t.Lexical) {kind : Kind} (hk : t.kind = kind)
    (fixed : kind.spelling?.isSome = true) : t = kind.token := by
  obtain ⟨kind', literal⟩ := t
  subst hk
  cases kind' <;> simp_all [Token.Lexical, Kind.spelling?, Kind.token]

theorem Token.Lexical.isName {t : Token} (h : t.Lexical) (hk : t.kind = .identifier) :
    IsName t.literal := by
  simpa [Token.Lexical, hk] using h

theorem Token.Lexical.isNumeral {t : Token} (h : t.Lexical) (hk : t.kind = .integer) :
    IsNumeral t.literal := by
  simpa [Token.Lexical, hk] using h

/-- All of the tokens have lexical form. -/
def Tokens.Lexical (ts : Tokens) : Prop := ∀ t ∈ ts, t.Lexical

section

variable {t : Token} {ts : Tokens}

theorem Tokens.Lexical.suffix {ts' : Tokens} (h : ts.Lexical) (further : ts' <:+ ts) :
    ts'.Lexical :=
  fun t ht => h t (further.subset ht)

theorem Tokens.lexical_append {ts us : Tokens} :
    Tokens.Lexical (ts ++ us) ↔ ts.Lexical ∧ us.Lexical :=
  List.forall_mem_append

theorem Tokens.Lexical.here (h : Tokens.Lexical (t :: ts)) : t.Lexical :=
  h t List.mem_cons_self

theorem Tokens.Lexical.behind (h : Tokens.Lexical (t :: ts)) : Tokens.Lexical ts :=
  h.suffix (List.suffix_cons t ts)

end

end MonkeySyntax
