import MonkeySyntax.Proofs.Lexer
import MonkeySyntax.Proofs.Tree.Style

/-!
# The tokens of written text

`Expr.tokens_ofString_written` says that the lexer finds the tokens of a tree in its text, in whatever
style it is written: at none of the seams that the text leaves without a blank does a token go on into
the next one. The one seam that has to be looked at is the one behind a sign.
-/

namespace MonkeySyntax

/-! ## Lists with separators -/

open Source in
/-- Items are read one by one if each is read from its own text and a comma stands between any two. -/
theorem tokens_ofString_intercalate {α : Type} {text : α → String} {tokens' : α → List Token}
    {xs : List α}
    (each : ∀ x ∈ xs, ∀ rest : Source, rest.Separates →
      tokens (ofString (text x) ++ rest) = tokens' x ++ tokens rest)
    {rest : Source} (apart : rest.Separates) :
    tokens (ofString (", ".intercalate (xs.map text)) ++ rest) =
      [Kind.comma.token].intercalate (xs.map tokens') ++ tokens rest := by
  induction xs with
  | nil => rfl
  | cons x xs ih =>
    have first := each x List.mem_cons_self
    have later := ih fun y hy => each y (List.mem_cons_of_mem x hy)
    -- a comma only stands behind an item that is not the last one
    cases xs with
    | nil => simpa using first rest apart
    | cons y ys =>
      have separated (cs : Source) : Separates (ofString ", " ++ cs) :=
        separates_cons (by decide) (' ' :: cs)
      have comma (cs : Source) : tokens (ofString ", " ++ cs) = Kind.comma.token :: tokens cs := by
        show tokens (',' :: ' ' :: cs) = _
        rw [tokens_symbol ',' .comma rfl (by decide), tokens_blank rfl]
      simp only [List.map_cons, String.intercalate_cons_cons, List.intercalate_cons_cons,
        ofString_append, List.append_assoc] at later ⊢
      rw [first _ (separated _), comma, later]
      rfl

open Source in
/-- Items that anything may stand behind need nothing between them. -/
theorem tokens_ofString_join {α : Type} {text : α → String} {tokens' : α → List Token} {xs : List α}
    (each : ∀ x ∈ xs, ∀ rest : Source,
      tokens (ofString (text x) ++ rest) = tokens' x ++ tokens rest) (rest : Source) :
    tokens (ofString (String.join (xs.map text)) ++ rest) =
      (xs.map tokens').flatten ++ tokens rest := by
  induction xs with
  | nil => rfl
  | cons x xs ih =>
    have first := each x List.mem_cons_self
    have later := ih fun y hy => each y (List.mem_cons_of_mem x hy)
    rw [List.map_cons, List.map_cons, String.join_cons, ofString_append, List.append_assoc, first,
      later, List.flatten_cons, List.append_assoc]

/-! ## Parts of the text -/

theorem Ident.WellFormed.lexical {ident : Ident} (h : ident.WellFormed) : ident.token.Lexical := by
  have isName : IsName ident.token.literal := h.literal_eq ▸ h.isName
  rw [Token.Lexical, h.kind_eq]
  exact isName

open Source in
theorem Ident.WellFormed.tokens_ofString {ident : Ident} (h : ident.WellFormed) {rest : Source}
    (apart : rest.Separates) :
    tokens (ofString ident.name ++ rest) = ident.token :: tokens rest := by
  have notEof : ident.token.kind ≠ .eof := by rw [h.kind_eq]; decide
  have legal : ident.token.kind ≠ .illegal := by rw [h.kind_eq]; decide
  rw [← h.literal_eq, tokens_ofString_literal h.lexical notEof legal (apart.apart _)]

namespace Source

/-- A text separates if its first character does. -/
theorem separates_ofString (s : String) {c : Char} {cs : Source} (h : ofString s = c :: cs)
    (hc : isWordChar c = false ∧ c ≠ '=') (rest : Source) : Separates (ofString s ++ rest) := by
  rw [h]
  exact separates_cons hc (cs ++ rest)

theorem tokens_space (rest : Source) : tokens (ofString " " ++ rest) = tokens rest :=
  tokens_blank rfl rest

theorem tokens_semicolon (rest : Source) :
    tokens (ofString ";" ++ rest) = Kind.semicolon.token :: tokens rest :=
  tokens_symbol ';' .semicolon rfl (by decide) rest

theorem tokens_assignment (rest : Source) :
    tokens (ofString " = " ++ rest) = Kind.assignment.token :: tokens rest := by
  have lexical : Kind.assignment.token.Lexical := rfl
  have apart : Kind.assignment.token.Apart (' ' :: rest) := by
    rintro c ⟨⟩
    show ' ' ≠ '='
    decide
  have sign : tokens ('=' :: ' ' :: rest) = Kind.assignment.token :: tokens (' ' :: rest) :=
    tokens_literal_append lexical (by decide) apart
  show tokens (' ' :: '=' :: ' ' :: rest) = _
  rw [tokens_blank rfl, sign, tokens_blank rfl]

theorem tokens_openParen (rest : Source) :
    tokens (ofString "(" ++ rest) = Kind.openParen.token :: tokens rest :=
  tokens_symbol '(' .openParen rfl (by decide) rest

theorem tokens_closeParen (rest : Source) :
    tokens (ofString ")" ++ rest) = Kind.closeParen.token :: tokens rest :=
  tokens_symbol ')' .closeParen rfl (by decide) rest

theorem tokens_fnOpen (rest : Source) :
    tokens (ofString " (" ++ rest) = Kind.openParen.token :: tokens rest := by
  show tokens (' ' :: '(' :: rest) = _
  rw [tokens_blank rfl, tokens_symbol '(' .openParen rfl (by decide)]

theorem tokens_bodyOpen (rest : Source) :
    tokens (ofString ") \x7b " ++ rest) =
      Kind.closeParen.token :: Kind.openBrace.token :: tokens rest := by
  show tokens (')' :: ' ' :: '\x7b' :: ' ' :: rest) = _
  rw [tokens_symbol ')' .closeParen rfl (by decide), tokens_blank rfl,
    tokens_symbol '\x7b' .openBrace rfl (by decide), tokens_blank rfl]

theorem tokens_bodyClose (rest : Source) :
    tokens (ofString " \x7d" ++ rest) = Kind.closeBrace.token :: tokens rest := by
  show tokens (' ' :: '\x7d' :: rest) = _
  rw [tokens_blank rfl, tokens_symbol '\x7d' .closeBrace rfl (by decide)]

end Source

open Source

/-- Parentheses make two more tokens of the text. -/
theorem tokens_ofString_parenthesized {text : String} {ts : List Token}
    (h : ∀ rest : Source, rest.Separates →
      Source.tokens (ofString text ++ rest) = ts ++ Source.tokens rest)
    (parens : Bool) {rest : Source} (apart : rest.Separates) :
    Source.tokens (ofString (parenthesized parens text) ++ rest) =
      parenthesizedTokens parens ts ++ Source.tokens rest := by
  cases parens with
  | false => exact h rest apart
  | true =>
    show Source.tokens (ofString ("(" ++ text ++ ")") ++ rest) = _
    simp only [ofString_append, List.append_assoc]
    rw [tokens_openParen, h _ (separates_ofString ")" rfl (by decide) rest), tokens_closeParen]
    simp [parenthesizedTokens]

/-- A sign stands apart from a source that starts with an operand. -/
theorem UnaryOp.apart {op : UnaryOp} {src : Source} {t : Token} {ts : List Token}
    (h : src.tokens = t :: ts) (starts : t.kind.startsOperand = true) :
    op.kind.token.Apart src := by
  intro c hc
  cases op with
  | neg => trivial
  | not =>
    show c ≠ '='
    rintro rfl
    obtain ⟨behind, rfl⟩ := List.head?_eq_some_iff.mp hc
    -- what starts with `=` starts with an operator, and no operand does
    have front : t = (scan ('=' :: behind)).1 := by
      rw [Source.tokens_eq] at h
      split at h <;> exact (List.cons.inj h).1.symm
    rcases twoCharacters_or_apart '=' behind with ⟨behind', -, rfl⟩ | alone
    · rw [front] at starts
      exact absurd starts Bool.false_ne_true
    · rw [front, scan_symbol rfl alone] at starts
      exact absurd starts Bool.false_ne_true

/-! ## Parts of expressions and statements

Each is one token or a few, in front of the rest of the text. -/

/-- A sign is read in front of what starts with an operand. -/
theorem UnaryOp.tokens_symbol (op : UnaryOp) {src : Source}
    (starts : (Tokens.current src.tokens).kind.startsOperand = true) :
    Source.tokens (ofString op.symbol ++ src) = op.kind.token :: src.tokens := by
  have apart : op.kind.token.Apart src := by
    cases split : src.tokens with
    | nil =>
      rw [split] at starts
      exact absurd starts Bool.false_ne_true
    | cons t ts =>
      rw [split] at starts
      exact UnaryOp.apart split starts
  rw [← UnaryOp.literal_token]
  exact tokens_ofString_literal (by cases op <;> rfl) (by cases op <;> decide)
    (by cases op <;> decide) apart

theorem BinaryOp.tokens_symbol (op : BinaryOp) (rest : Source) :
    Source.tokens (ofString " " ++ (ofString op.symbol ++ (ofString " " ++ rest))) =
      op.kind.token :: Source.tokens rest := by
  have apart : Separates (ofString " " ++ rest) := separates_ofString " " rfl (by decide) rest
  have sign := tokens_ofString_literal (t := op.kind.token) (by cases op <;> rfl)
    (by cases op <;> decide) (by cases op <;> decide) (apart.apart _)
  rw [tokens_space, ← BinaryOp.literal_token, sign, tokens_space]

theorem tokens_ofString_numeral {t : Token} (kind : t.kind = .integer) (numeral : IsNumeral t.literal)
    {rest : Source} (apart : rest.Separates) :
    Source.tokens (ofString t.literal ++ rest) = t :: Source.tokens rest := by
  have lexical : t.Lexical := by rw [Token.Lexical, kind]; exact numeral
  exact tokens_ofString_literal lexical (by simp [kind]) (by simp [kind]) (apart.apart t)

theorem tokens_ofString_truth (value : Bool) {rest : Source} (apart : rest.Separates) :
    Source.tokens (ofString (Kind.token (if value then .trueWord else .falseWord)).literal ++ rest) =
      Kind.token (if value then .trueWord else .falseWord) :: Source.tokens rest := by
  cases value <;> exact tokens_ofString_literal (by rfl) (by decide) (by decide) (apart.apart _)

/-- The start of a call. -/
theorem Ident.WellFormed.tokens_callee {ident : Ident} (h : ident.WellFormed) (rest : Source) :
    Source.tokens (ofString ident.name ++ (ofString "(" ++ rest)) =
      ident.token :: Kind.openParen.token :: Source.tokens rest := by
  rw [h.tokens_ofString (separates_ofString "(" rfl (by decide) _), tokens_openParen]

/-- The start of a function. -/
theorem tokens_function (rest : Source) :
    Source.tokens (ofString Kind.fnWord.token.literal ++ (ofString " (" ++ rest)) =
      Kind.fnWord.token :: Kind.openParen.token :: Source.tokens rest := by
  have lexical : Kind.fnWord.token.Lexical := rfl
  rw [tokens_ofString_literal lexical (by decide) (by decide)
    ((separates_ofString " (" rfl (by decide) _).apart _), tokens_fnOpen]

/-- The start of a `return` statement. -/
theorem tokens_return (rest : Source) :
    Source.tokens (ofString Kind.returnWord.token.literal ++ (ofString " " ++ rest)) =
      Kind.returnWord.token :: Source.tokens rest := by
  have lexical : Kind.returnWord.token.Lexical := rfl
  rw [tokens_ofString_literal lexical (by decide) (by decide)
    ((separates_ofString " " rfl (by decide) _).apart _), tokens_space]

/-- The start of a `let` statement. -/
theorem Ident.WellFormed.tokens_binding {ident : Ident} (h : ident.WellFormed) (rest : Source) :
    Source.tokens (ofString Kind.letWord.token.literal ++
        (ofString " " ++ (ofString ident.name ++ (ofString " = " ++ rest)))) =
      Kind.letWord.token :: ident.token :: Kind.assignment.token :: Source.tokens rest := by
  have lexical : Kind.letWord.token.Lexical := rfl
  rw [tokens_ofString_literal lexical (by decide) (by decide)
      ((separates_ofString " " rfl (by decide) _).apart _), tokens_space,
    h.tokens_ofString (separates_ofString " = " rfl (by decide) _), tokens_assignment]

/-! ## Expressions and statements -/

/-- Tokens that start with the start of an operand do so in parentheses as well. -/
theorem parenthesizedTokens_eq_cons {ts : List Token}
    (h : ∃ t ts', ts = t :: ts' ∧ t.kind.startsOperand = true) (parens : Bool) :
    ∃ t ts', parenthesizedTokens parens ts = t :: ts' ∧ t.kind.startsOperand = true := by
  cases parens with
  | false => exact h
  | true => exact ⟨_, _, rfl, rfl⟩

section

variable {style : Style}

/-- Whatever the style is, the text of an expression starts with the start of an operand. -/
theorem Expr.writtenTokens_eq_cons {e : Expr} (h : e.Everywhere Expr.Spelled Stmt.Spelled) :
    ∃ t ts, e.writtenTokens style = t :: ts ∧ t.kind.startsOperand = true := by
  induction e with
  | ident name =>
    have isName : name.WellFormed := h
    exact ⟨_, _, rfl, isName.kind_eq ▸ rfl⟩
  | int token value => exact ⟨_, _, rfl, h.1 ▸ rfl⟩
  | bool token value =>
    cases h
    exact ⟨_, _, rfl, by cases value <;> rfl⟩
  | unary token op operand _ =>
    obtain ⟨rfl, -⟩ := h
    exact ⟨_, _, rfl, by cases op <;> rfl⟩
  | binary token left op right ihLeft _ =>
    -- the text of the left operand comes first
    obtain ⟨t, ts, first, starts⟩ :=
      parenthesizedTokens_eq_cons (ihLeft h.2.1) (style.parens (.leftOf op) left)
    exact ⟨t, _, by rw [Expr.writtenTokens, first, List.cons_append], starts⟩
  | call callee args _ =>
    have isName : callee.WellFormed := h.1
    exact ⟨_, _, rfl, isName.kind_eq ▸ rfl⟩
  | fn token params body _ =>
    obtain ⟨⟨rfl, -⟩, -⟩ := h
    exact ⟨_, _, rfl, rfl⟩

variable (style) in
theorem Expr.tokensAt_eq_cons {e : Expr} (h : e.Everywhere Expr.Spelled Stmt.Spelled) (p : Position) :
    ∃ t ts, e.tokensAt style p = t :: ts ∧ t.kind.startsOperand = true :=
  parenthesizedTokens_eq_cons (Expr.writtenTokens_eq_cons h) (style.parens p e)

/-- A statement is read from its text if its value is. -/
theorem Stmt.tokens_ofString_written_of_value {s : Stmt} (h : s.Spelled)
    (value : ∀ rest : Source, rest.Separates →
      Source.tokens (ofString (s.value.writtenAt style .alone) ++ rest) =
        s.value.tokensAt style .alone ++ Source.tokens rest)
    (rest : Source) :
    Source.tokens (ofString (s.written style) ++ rest) =
      s.writtenTokens style ++ Source.tokens rest := by
  -- the `;` behind a value ends the token in front of it
  have behindValue := value (ofString ";" ++ rest) (separates_ofString ";" rfl (by decide) rest)
  rw [tokens_semicolon, Expr.writtenAt, Expr.tokensAt] at behindValue
  cases s with
  | binding token name v =>
    obtain ⟨rfl, isName⟩ := h
    simp only [Stmt.written, ofString_append, List.append_assoc]
    rw [isName.tokens_binding]
    simpa [Stmt.writtenTokens, Stmt.value] using behindValue
  | ret token v =>
    cases h
    simp only [Stmt.written, ofString_append, List.append_assoc]
    rw [tokens_return]
    simpa [Stmt.writtenTokens, Stmt.value] using behindValue
  | expr token v =>
    simp only [Stmt.written, ofString_append, List.append_assoc]
    simpa [Stmt.writtenTokens, Stmt.value] using behindValue

/-- The lexer reads the text of an expression as the tokens of the tree. -/
theorem Expr.tokens_ofString_written {e : Expr} (h : e.Everywhere Expr.Spelled Stmt.Spelled)
    (rest : Source) (apart : rest.Separates) :
    Source.tokens (ofString (e.written style) ++ rest) =
      e.writtenTokens style ++ Source.tokens rest := by
  induction e generalizing rest with
  | ident name => exact h.tokens_ofString apart
  | int token value =>
    obtain ⟨kind, numeral⟩ := h
    exact tokens_ofString_numeral kind numeral apart
  | bool token value =>
    cases h
    exact tokens_ofString_truth value apart
  | unary token op operand ih =>
    obtain ⟨rfl, inside⟩ := h
    -- the sign stands right in front of its operand, which therefore has to be looked at
    obtain ⟨t, ts, first, starts⟩ := Expr.tokensAt_eq_cons style inside .behindSign
    have value : Source.tokens (ofString (operand.writtenAt style .behindSign) ++ rest) =
        operand.tokensAt style .behindSign ++ Source.tokens rest :=
      tokens_ofString_parenthesized (ih inside) _ apart
    have sign := op.tokens_symbol (by rw [value, first]; exact starts)
    simp only [Expr.written, ofString_append, List.append_assoc]
    exact sign.trans (congrArg (op.kind.token :: ·) value)
  | binary token left op right ihLeft ihRight =>
    obtain ⟨rfl, insideLeft, insideRight⟩ := h
    have space (cs : Source) : Separates (ofString " " ++ cs) :=
      separates_ofString " " rfl (by decide) cs
    simp only [Expr.written, ofString_append, List.append_assoc]
    rw [tokens_ofString_parenthesized (ihLeft insideLeft) _ (space _), op.tokens_symbol,
      tokens_ofString_parenthesized (ihRight insideRight) _ apart]
    simp [Expr.writtenTokens]
  | call callee args ih =>
    obtain ⟨name, inside⟩ := h
    have each : ∀ a ∈ args, ∀ rest : Source, rest.Separates →
        Source.tokens (ofString (a.writtenAt style .alone) ++ rest) =
          a.tokensAt style .alone ++ Source.tokens rest := fun a ha rest apart =>
      tokens_ofString_parenthesized (ih a ha (Expr.allEverywhere_iff.mp inside a ha)) _ apart
    have list := tokens_ofString_intercalate each (separates_ofString ")" rfl (by decide) rest)
    simp only [Expr.written, Expr.writtenEach_eq_map, ofString_append, List.append_assoc]
    rw [name.tokens_callee, list, tokens_closeParen]
    simp [Expr.writtenTokens]
  | fn token params body ih =>
    obtain ⟨⟨rfl, names⟩, inside⟩ := h
    have eachParam : ∀ p ∈ params, ∀ rest : Source, rest.Separates →
        Source.tokens (ofString p.name ++ rest) = [p.token] ++ Source.tokens rest := by
      intro p hp rest apart
      exact (names p hp).tokens_ofString apart
    have params' (cs : Source) := tokens_ofString_intercalate eachParam
      (separates_ofString ") \x7b " rfl (by decide) cs)
    have eachStmt : ∀ s ∈ body, ∀ rest : Source,
        Source.tokens (ofString (s.written style) ++ rest) =
          s.writtenTokens style ++ Source.tokens rest := by
      intro s hs
      obtain ⟨spelled, below⟩ := Stmt.everywhere_iff.mp (Stmt.allEverywhere_iff.mp inside s hs)
      exact Stmt.tokens_ofString_written_of_value spelled fun rest apart =>
        tokens_ofString_parenthesized (ih s hs below) _ apart
    have body' (cs : Source) := tokens_ofString_join eachStmt cs
    simp only [Expr.written, Stmt.writtenEach_eq_map, ofString_append, List.append_assoc]
    rw [tokens_function, params', tokens_bodyOpen, body', tokens_bodyClose]
    simp [Expr.writtenTokens]

variable (style) in
theorem Stmt.tokens_ofString_written {s : Stmt} (h : s.Everywhere Expr.Spelled Stmt.Spelled)
    (rest : Source) :
    Source.tokens (ofString (s.written style) ++ rest) =
      s.writtenTokens style ++ Source.tokens rest := by
  obtain ⟨spelled, inside⟩ := Stmt.everywhere_iff.mp h
  exact Stmt.tokens_ofString_written_of_value spelled
    (fun _ apart => tokens_ofString_parenthesized (Expr.tokens_ofString_written inside) _ apart) rest

variable (style) in
/-- The lexer reads the text of a program as the program's tokens. -/
theorem Program.tokenize_written {p : Program}
    (h : ∀ s ∈ p.statements, s.Everywhere Expr.Spelled Stmt.Spelled) :
    tokenize (p.written style) = p.writtenTokens style ++ [Token.eof] := by
  have whole := tokens_ofString_join
    (fun s hs => Stmt.tokens_ofString_written style (h s hs)) []
  rw [List.append_nil, Source.tokens_nil] at whole
  rw [tokenize, Program.written, whole, Program.writtenTokens, List.flatMap_def]

end

end MonkeySyntax
