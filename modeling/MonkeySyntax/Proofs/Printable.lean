import MonkeySyntax.ParseError
import MonkeySyntax.Proofs.Lexer
import MonkeySyntax.Proofs.Parser.Blames
import MonkeySyntax.Proofs.Tree
import MonkeySyntax.Tree.Canonical

/-!
# Printable text

No control character and no character beyond ASCII of a source is written to a terminal as it is.

* `ParseError.TrueOf.printable_message` — the message of an error that is true of a token of lexical
  form is printable. Illegal tokens are described by their byte, and it is only for them that literals
  are anything but words, numerals and symbols.
* `Program.WellFormed.printable_canonical` — so is the canonical text of a well-formed program.
-/

namespace MonkeySyntax

/-- Visible ASCII characters and the space. -/
def isPrintable (c : Char) : Bool := 0x20 ≤ c.toNat && c.toNat ≤ 0x7e

/-- A text of visible ASCII characters and spaces. -/
def PrintableAscii (s : String) : Prop := ∀ c ∈ s.toList, isPrintable c = true

instance : DecidablePred PrintableAscii := fun s =>
  List.decidableBAll (fun c => isPrintable c = true) s.toList

namespace PrintableAscii

variable {s t : String} {ss : List String}

@[simp]
theorem append_iff : PrintableAscii (s ++ t) ↔ PrintableAscii s ∧ PrintableAscii t := by
  rw [PrintableAscii, String.toList_append, List.forall_mem_append]
  rfl

theorem join (h : ∀ s ∈ ss, PrintableAscii s) : PrintableAscii (String.join ss) := by
  intro c hc
  rw [String.toList_join, List.mem_flatMap] at hc
  obtain ⟨s, hs, inside⟩ := hc
  exact h s hs c inside

theorem intercalate (sep : PrintableAscii t) (h : ∀ s ∈ ss, PrintableAscii s) :
    PrintableAscii (t.intercalate ss) := by
  induction ss with
  | nil => exact fun c hc => absurd hc (by simp)
  | cons s ss ih =>
    rw [List.forall_mem_cons] at h
    cases ss with
    | nil => simpa using h.1
    | cons s' ss =>
      rw [String.intercalate_cons_cons]
      simp only [append_iff]
      exact ⟨⟨h.1, sep⟩, ih h.2⟩

theorem noLineBreak (h : PrintableAscii s) : '\n' ∉ s.toList :=
  fun lineBreak => absurd (h '\n' lineBreak) (by decide)

end PrintableAscii

/-! ## Numbers -/

theorem isPrintable_digitChar (n : Nat) : isPrintable n.digitChar = true := by
  by_cases small : n < 16
  · revert n
    decide
  · -- there are no more digits than these
    have none : n.digitChar = '*' := by
      unfold Nat.digitChar
      repeat rw [if_neg (by omega)]
    rw [none]
    decide

theorem isPrintable_toDigitsCore (base fuel n : Nat) {digits : List Char}
    (h : ∀ c ∈ digits, isPrintable c = true) :
    ∀ c ∈ Nat.toDigitsCore base fuel n digits, isPrintable c = true := by
  induction fuel generalizing n digits with
  | zero => exact h
  | succ fuel ih =>
    have more : ∀ c ∈ (n % base).digitChar :: digits, isPrintable c = true :=
      List.forall_mem_cons.mpr ⟨isPrintable_digitChar (n % base), h⟩
    rw [Nat.toDigitsCore]
    split
    · exact more
    · exact ih (n / base) more

theorem isPrintable_toDigits (base n : Nat) :
    ∀ c ∈ Nat.toDigits base n, isPrintable c = true :=
  isPrintable_toDigitsCore base (n + 1) n (by simp)

theorem printable_toString (n : Nat) : PrintableAscii (toString n) := by
  intro c hc
  rw [Nat.toString_eq_repr, Nat.repr, String.toList_ofList] at hc
  exact isPrintable_toDigits 10 n c hc

theorem printable_hex (width n : Nat) : PrintableAscii (Hex.padded width n) := by
  intro c hc
  rw [Hex.padded, String.toList_ofList, List.leftpad, List.mem_append] at hc
  rcases hc with zero | digit
  · rw [(List.mem_replicate.mp zero).2]
    decide
  · exact isPrintable_toDigits 16 n c digit

/-! ## Tokens -/

theorem isPrintable_iff {c : Char} : isPrintable c = true ↔ 0x20 ≤ c.toNat ∧ c.toNat ≤ 0x7e := by
  simp [isPrintable]

theorem isPrintable_of_isWordChar {c : Char} (h : isWordChar c = true) : isPrintable c = true := by
  unfold isWordChar Char.isAlphanum Char.isAlpha Char.isUpper Char.isLower Char.isDigit at h
  simp only [Bool.or_eq_true, Bool.and_eq_true, decide_eq_true_eq] at h
  -- each range of letters or digits is one of printable characters
  have within {low high : UInt32} (h : low ≤ c.val ∧ c.val ≤ high)
      (bounds : 0x20 ≤ low.toNat ∧ high.toNat ≤ 0x7e) : isPrintable c = true := by
    have above := UInt32.le_iff_toNat_le.mp h.1
    have below := UInt32.le_iff_toNat_le.mp h.2
    exact isPrintable_iff.mpr ⟨bounds.1.trans above, below.trans bounds.2⟩
  rcases h with ((h | h) | h) | rfl
  · exact within h (by decide)
  · exact within h (by decide)
  · exact within h (by decide)
  · decide

theorem Kind.printable_label (kind : Kind) : PrintableAscii kind.label := by
  cases kind <;> decide

/-- Literals are printable, except those of illegal tokens and of the end of the input. -/
theorem Token.Lexical.printable {t : Token} (h : t.Lexical) (legal : t.kind ≠ .illegal)
    (notEof : t.kind ≠ .eof) : PrintableAscii t.literal := by
  obtain ⟨kind, literal⟩ := t
  cases kind with
  | identifier => exact fun c hc => isPrintable_of_isWordChar ((h.isName rfl).1.2.1 c hc)
  | integer =>
    exact fun c hc => isPrintable_of_isWordChar (isWordChar_of_isDigit ((h.isNumeral rfl).2 c hc))
  | illegal => exact absurd rfl legal
  | eof => exact absurd rfl notEof
  | _ =>
    cases Option.some.inj h
    show PrintableAscii _
    decide

theorem Token.Lexical.printable_describe {t : Token} (h : t.Lexical) (legal : t.kind ≠ .illegal) :
    PrintableAscii t.describe := by
  unfold Token.describe
  split
  · decide
  · rename_i notEof
    simp only [PrintableAscii.append_iff]
    exact ⟨⟨⟨t.kind.printable_label, by decide⟩, h.printable legal notEof⟩, by decide⟩

/-! ## Messages -/

theorem ParseError.printable_byteMessage (byte : UInt8) : PrintableAscii (byteMessage byte) := by
  unfold byteMessage
  split
  · rename_i visible
    simp only [PrintableAscii.append_iff]
    refine ⟨⟨by decide, ?_⟩, by decide⟩
    intro c hc
    rw [String.toList_singleton, List.mem_singleton] at hc
    subst hc
    have code : (Char.ofUInt8 byte).toNat = byte.toNat := byte.toNat_toUInt32
    have low := UInt8.le_iff_toNat_le.mp visible.1
    have high := UInt8.le_iff_toNat_le.mp visible.2
    rw [isPrintable_iff, code]
    exact ⟨Nat.le_trans (by decide) low, high⟩
  · simp only [PrintableAscii.append_iff]
    exact ⟨by decide, printable_hex 2 byte.toNat⟩

/-- An error that is true of a token has a printable message, whatever the source is. -/
theorem ParseError.TrueOf.printable_message {e : ParseError} {t : Token} (h : e.TrueOf t)
    (lexical : t.Lexical) : PrintableAscii e.message := by
  cases e with
  | unexpectedToken expected found =>
    obtain ⟨rfl, -, legal⟩ := h
    show PrintableAscii ("expected " ++ expected.label ++ ", found " ++ found.describe)
    simp only [PrintableAscii.append_iff]
    exact ⟨⟨⟨by decide, expected.printable_label⟩, by decide⟩, lexical.printable_describe legal⟩
  | noOperand found =>
    obtain ⟨rfl, legal, -⟩ := h
    exact PrintableAscii.append_iff.mpr ⟨by decide, lexical.printable_describe legal⟩
  | integerOutOfRange digits =>
    obtain ⟨integer, rfl, -⟩ := h
    have literal := lexical.printable (by simp [integer]) (by simp [integer])
    exact PrintableAscii.append_iff.mpr ⟨by decide, literal⟩
  | illegalByte byte =>
    exact PrintableAscii.append_iff.mpr ⟨by decide, printable_byteMessage byte⟩
  | nestingTooDeep limit =>
    exact PrintableAscii.append_iff.mpr ⟨by decide, printable_toString limit⟩

/-! ## Canonical text -/

theorem Ident.WellFormed.printable {ident : Ident} (h : ident.WellFormed) :
    PrintableAscii ident.name :=
  fun c hc => isPrintable_of_isWordChar (h.isName.1.2.1 c hc)

/-- A statement is printable if its value is. -/
theorem Stmt.printable_canonical_of_value {s : Stmt} (h : s.Spelled)
    (value : PrintableAscii s.value.canonical) : PrintableAscii s.canonical := by
  cases s with
  | binding token name v =>
    obtain ⟨rfl, isName⟩ := h
    simp only [Stmt.canonical, PrintableAscii.append_iff]
    exact ⟨⟨⟨⟨⟨by decide, by decide⟩, isName.printable⟩, by decide⟩, value⟩, by decide⟩
  | ret token v =>
    cases h
    simp only [Stmt.canonical, PrintableAscii.append_iff]
    exact ⟨⟨⟨by decide, by decide⟩, value⟩, by decide⟩
  | expr token v =>
    simp only [Stmt.canonical, PrintableAscii.append_iff]
    exact ⟨value, by decide⟩

theorem Expr.printable_canonical {e : Expr} (h : e.Everywhere Expr.Spelled Stmt.Spelled) :
    PrintableAscii e.canonical := by
  induction e with
  | ident name => exact Ident.WellFormed.printable h
  | int token value => exact fun c hc => isPrintable_of_isWordChar (isWordChar_of_isDigit (h.2.2 c hc))
  | bool token value =>
    cases h
    cases value <;> decide
  | unary token op operand ih =>
    simp only [Expr.canonical, PrintableAscii.append_iff]
    exact ⟨⟨⟨by decide, by cases op <;> decide⟩, ih h.2⟩, by decide⟩
  | binary token left op right ihLeft ihRight =>
    simp only [Expr.canonical, PrintableAscii.append_iff]
    exact ⟨⟨⟨⟨⟨⟨by decide, ihLeft h.2.1⟩, by decide⟩, by cases op <;> decide⟩, by decide⟩,
      ihRight h.2.2⟩, by decide⟩
  | call callee args ih =>
    obtain ⟨name, inside⟩ := h
    have list : PrintableAscii (", ".intercalate (args.map Expr.canonical)) := by
      apply PrintableAscii.intercalate (by decide)
      rw [List.forall_mem_map]
      exact fun a ha => ih a ha (Expr.allEverywhere_iff.mp inside a ha)
    simp only [Expr.canonical_call, PrintableAscii.append_iff]
    exact ⟨⟨⟨Ident.WellFormed.printable name, by decide⟩, list⟩, by decide⟩
  | fn token params body ih =>
    obtain ⟨⟨rfl, names⟩, inside⟩ := h
    have list : PrintableAscii (", ".intercalate (params.map Ident.name)) := by
      apply PrintableAscii.intercalate (by decide)
      rw [List.forall_mem_map]
      exact fun p hp => (names p hp).printable
    have statements : PrintableAscii (Program.canonical ⟨body⟩) := by
      apply PrintableAscii.join
      rw [List.forall_mem_map]
      intro s hs
      obtain ⟨spelled, below⟩ := Stmt.everywhere_iff.mp (Stmt.allEverywhere_iff.mp inside s hs)
      exact Stmt.printable_canonical_of_value spelled (ih s hs below)
    simp only [Expr.canonical_fn, PrintableAscii.append_iff]
    exact ⟨⟨⟨⟨⟨by decide, by decide⟩, list⟩, by decide⟩, statements⟩, by decide⟩

theorem Program.WellFormed.printable_canonical {p : Program} (h : p.WellFormed) :
    PrintableAscii p.canonical := by
  apply PrintableAscii.join
  rw [List.forall_mem_map]
  intro s hs
  obtain ⟨spelled, below⟩ := Stmt.everywhere_iff.mp (h s hs).printable
  exact Stmt.printable_canonical_of_value spelled (Expr.printable_canonical below)

end MonkeySyntax
