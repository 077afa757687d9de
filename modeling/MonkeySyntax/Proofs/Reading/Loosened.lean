import MonkeySyntax.Proofs.Reading.Written
import MonkeySyntax.Proofs.Tree.Loosened

/-!
# Reading canonical text without all its marks

`Program.reads_loosened` — canonical text in which marks are missing reads as the program, in which
every expression statement has its first token.

Where a mark is missing, what stands in front of it meets what stands behind it. Three things could go
wrong there, and each is ruled out by what canonical text looks like: a token could go on, but a space
stands in the place of the mark; an operator could climb, but no text starts with one, because signs
stand in parentheses (`Expr.startsAfresh_leadingToken`); and a name could become a callee, which is what
`Expr.needsMark` is about.

All operations stand in parentheses, so every expression is an operand, and no chain of operators has to
be followed through it: the text and its tokens are taken apart in one induction.
-/

namespace MonkeySyntax

open MonkeySyntax.Parser Source

/-! ## What a text starts with -/

/-- What starts with this kind goes on with nothing: it is neither an operator nor a mark. -/
def Kind.startsAfresh (kind : Kind) : Bool :=
  !climbs .lowest kind && kind ≠ .comma && kind ≠ .semicolon

theorem Kind.climbs_of_startsAfresh {kind : Kind} (h : kind.startsAfresh = true) :
    climbs .lowest kind = false := by
  simp only [Kind.startsAfresh, Bool.and_eq_true, Bool.not_eq_true'] at h
  exact h.1.1

theorem Kind.ne_of_startsAfresh {kind mark : Kind} (h : kind.startsAfresh = true)
    (isMark : mark = .comma ∨ mark = .semicolon) : kind ≠ mark := by
  rintro rfl
  rcases isMark with rfl | rfl <;> exact absurd h (by decide)

/-- What ends a block is neither of them, and no parenthesis. -/
theorem startsAfresh_of_inBlock {inBody : Bool} {kind : Kind} (h : inBlock inBody kind = false) :
    kind.startsAfresh = true ∧ kind ≠ .openParen := by
  cases kind with
  | eof => decide
  | closeBrace => decide
  | _ => cases inBody <;> cases h

/-- No operator starts an expression in canonical text: a sign stands behind a parenthesis. -/
theorem Expr.startsAfresh_leadingToken {e : Expr} (h : e.Spelled) :
    (e.leadingToken .full).kind.startsAfresh = true := by
  cases e with
  | ident name =>
    show name.token.kind.startsAfresh = true
    rw [Ident.WellFormed.kind_eq h]
    rfl
  | int token value =>
    show token.kind.startsAfresh = true
    rw [h.1]
    rfl
  | bool token value =>
    cases h
    cases value <;> rfl
  | unary token op operand => rfl
  | binary token left op right => rfl
  | call callee args =>
    show callee.token.kind.startsAfresh = true
    rw [Ident.WellFormed.kind_eq h]
    rfl
  | fn token params body =>
    show token.kind.startsAfresh = true
    rw [h.1]
    rfl

/-- If the first token is a parenthesis, the first character is. -/
theorem Expr.head_canonical {e : Expr} (h : e.Spelled)
    (paren : (e.leadingToken .full).kind = .openParen) : e.canonical.toList.head? = some '(' := by
  cases e with
  | ident name => exact absurd ((Ident.WellFormed.kind_eq h).symm.trans paren) (by decide)
  | int token value => exact absurd (h.1.symm.trans paren) (by decide)
  | bool token value =>
    cases h
    cases value <;> exact absurd paren (by decide)
  | unary token op operand => simp [Expr.canonical]
  | binary token left op right => simp [Expr.canonical]
  | call callee args => exact absurd ((Ident.WellFormed.kind_eq h).symm.trans paren) (by decide)
  | fn token params body =>
    obtain ⟨rfl, -⟩ := h
    exact absurd paren (show Kind.fnWord ≠ .openParen by decide)

/-- The first token of a statement in canonical form. -/
def Stmt.leadingToken : Stmt → Token
  | .binding token _ _ => token
  | .ret token _ => token
  | .expr _ value => value.leadingToken .full

theorem Stmt.startsAfresh_leadingToken {s : Stmt} (h : s.Spelled) (value : s.value.Spelled) :
    s.leadingToken.kind.startsAfresh = true := by
  cases s with
  | binding token name v =>
    obtain ⟨rfl, -⟩ := h
    rfl
  | ret token v =>
    cases h
    rfl
  | expr token v => exact Expr.startsAfresh_leadingToken value

theorem Stmt.head_canonical {s : Stmt} (h : s.Spelled) (value : s.value.Spelled)
    (paren : s.leadingToken.kind = .openParen) : s.canonical.toList.head? = some '(' := by
  cases s with
  | binding token name v =>
    obtain ⟨rfl, -⟩ := h
    exact absurd paren (show Kind.letWord ≠ .openParen by decide)
  | ret token v =>
    cases h
    exact absurd paren (show Kind.returnWord ≠ .openParen by decide)
  | expr token v =>
    have first : v.canonical.toList.head? = some '(' := Expr.head_canonical value paren
    rw [Stmt.canonical, String.toList_append, List.head?_append, first]
    rfl

/-! ## Where a mark may be missing -/

/-- The source may stand behind the expression: it goes on with none of its tokens, and makes no callee
of a name. -/
structure Expr.EndsBefore (e : Expr) (src : Source) : Prop where
  separates : src.Separates
  noCall : e.isName = true → (Tokens.current src.tokens).kind ≠ .openParen

/-- Any token but an opening parenthesis ends an expression. -/
theorem Expr.endsBefore_token (e : Expr) {src : Source} {kind : Kind} {rest : Tokens}
    (apart : src.Separates) (front : tokens src = kind.token :: rest) (noCall : kind ≠ .openParen) :
    e.EndsBefore src :=
  ⟨apart, fun _ => front ▸ Tokens.current_token_ne noCall rest⟩

section

variable {kind : Kind} (isMark : kind = .comma ∨ kind = .semicolon) (rest : Source)

include isMark

theorem tokens_mark :
    tokens (ofString kind.token.literal ++ rest) = kind.token :: tokens rest := by
  rcases isMark with rfl | rfl
  · exact tokens_symbol ',' .comma rfl (by decide) rest
  · exact tokens_semicolon rest

theorem separates_mark : (ofString kind.token.literal ++ rest).Separates := by
  rcases isMark with rfl | rfl <;> exact separates_ofString _ rfl (by decide) rest

end

/-- Behind an expression, a mark makes no difference: the expression ends there, and what comes next
starts behind the mark or behind the space in its place. -/
theorem Loosened.ends {kind : Kind} {needed : Bool} {ps : List Piece} {text : String}
    (h : Loosened (.mark kind needed :: ps) text) (isMark : kind = .comma ∨ kind = .semicolon)
    (e : Expr) :
    ∃ later, Loosened ps later ∧ ∀ {src : Source} {next : Tokens},
      tokens (ofString later ++ src) = next → next.current.kind.startsAfresh = true →
      (e.isName = true → next.current.kind = .openParen → needed = true) →
      e.EndsBefore (ofString text ++ src) ∧
        climbs .lowest (Tokens.current (tokens (ofString text ++ src))).kind = false ∧
        Tokens.skipping kind (tokens (ofString text ++ src)) = next := by
  obtain ⟨later, rest, rfl | ⟨rfl, rfl⟩⟩ := h.of_mark
  · refine ⟨later, rest, ?_⟩
    rintro src next rfl - -
    have mark := tokens_mark isMark (ofString later ++ src)
    have apart := separates_mark isMark (ofString later ++ src)
    rw [ofString_append, List.append_assoc]
    refine ⟨e.endsBefore_token apart mark ?_, ?_, ?_⟩
    · rcases isMark with rfl | rfl <;> decide
    · rw [mark]
      rcases isMark with rfl | rfl <;> rfl
    · rw [mark]
      exact Tokens.skipping_cons (by rcases isMark with rfl | rfl <;> decide) rfl _
  · refine ⟨later, rest, ?_⟩
    rintro src next rfl afresh paren
    have space := tokens_space (ofString later ++ src)
    have apart : (ofString " " ++ (ofString later ++ src)).Separates :=
      separates_ofString " " rfl (by decide) _
    rw [ofString_append, List.append_assoc]
    refine ⟨⟨apart, fun isName opens => ?_⟩, ?_, ?_⟩
    · rw [space] at opens
      exact absurd (paren isName opens) (by decide)
    · rw [space]
      exact Kind.climbs_of_startsAfresh afresh
    · rw [space]
      exact Tokens.skipping_of_ne (Kind.ne_of_startsAfresh afresh isMark)

/-! ## What is proved of a tree -/

section

variable {lossy : Prop}

variable (lossy) in
/-- Whichever of its marks are missing, the expression is read in front of whatever may stand behind
it. -/
def Expr.ReadsLoosened (e : Expr) : Prop :=
  ∀ ⦃text : String⦄, Loosened e.pieces text → ∀ ⦃src : Source⦄, e.EndsBefore src →
    Tokens.current (tokens (ofString text ++ src)) = e.leadingToken .full ∧
    ∃ d ≤ 2 * e.height,
      Reads lossy (.operand (e.retoken (Expr.leadingToken .full))) (tokens (ofString text ++ src))
        (tokens src) d

/-- An operand is the whole expression if no operator climbs behind it. -/
theorem Reads.lone {e : Expr} {ts rest : Tokens} {d : Nat} (h : Reads lossy (.operand e) ts rest d)
    (min : Precedence) (stops : climbs min rest.current.kind = false) :
    Reads lossy (.expression min e) ts rest (d + 1) := by
  have whole := Reads.expression h (.done stops)
  rwa [Nat.max_zero] at whole

/-! ## Lists -/

/-- Arguments are read whichever of the commas between them are missing. -/
theorem reads_loosened_arguments {es : List Expr} (wf : ∀ e ∈ es, e.WellFormed)
    (each : ∀ e ∈ es, e.ReadsLoosened lossy) {text : String}
    (written : Loosened (Expr.listPieces es) text) {src : Source} (apart : src.Separates)
    (close : (Tokens.current (tokens src)).kind = .closeParen) :
    (∀ e ∈ es.head?, Tokens.current (tokens (ofString text ++ src)) = e.leadingToken .full) ∧
    ∃ d ≤ 2 * Expr.highest es + 1,
      Reads lossy (.arguments (es.map (Expr.retoken (Expr.leadingToken .full))))
        (tokens (ofString text ++ src)) (tokens src) d := by
  have stops : inParens (Tokens.current (tokens src)).kind = false := by rw [close]; rfl
  induction es generalizing text with
  | nil =>
    cases written.of_nil
    exact ⟨fun e he => absurd he (by simp), 0, Nat.zero_le _, .noArguments stops⟩
  | cons e es ih =>
    cases es with
    | nil =>
      -- the parenthesis stands behind the last argument
      have ends : e.EndsBefore src := ⟨apart, fun _ => by rw [close]; decide⟩
      obtain ⟨front, d, bound, reads⟩ := each e List.mem_cons_self written ends
      have lone := reads.lone .lowest (by rw [close]; rfl)
      have skipped : Tokens.skipping .comma (tokens src) = tokens src :=
        Tokens.skipping_of_ne (by rw [close]; decide)
      refine ⟨by rintro _ ⟨⟩; exact front, max (d + 1) 0, by rw [Expr.highest]; omega, ?_⟩
      exact .argument lone (skipped.symm ▸ .noArguments stops)
    | cons e' es =>
      obtain ⟨first, behind, rfl, writtenFirst, writtenBehind⟩ := written.of_append
      obtain ⟨later, spaced, goesOn⟩ := writtenBehind.ends (.inl rfl) e
      obtain ⟨later, rfl, writtenLater⟩ := spaced.of_fixed
      obtain ⟨front', d', bound', reads'⟩ :=
        ih (fun a ha => wf a (List.mem_cons_of_mem e ha))
          (fun a ha => each a (List.mem_cons_of_mem e ha)) writtenLater
      have next : tokens (ofString (" " ++ later) ++ src) = tokens (ofString later ++ src) := by
        rw [ofString_append, List.append_assoc, tokens_space]
      have spelled : e'.Spelled := (wf e' (by simp)).here.1
      have starts := front' e' rfl
      obtain ⟨ends, stops', skipped⟩ := goesOn next
        (by rw [starts]; exact Expr.startsAfresh_leadingToken spelled)
        (fun isName paren => by
          rw [starts] at paren
          simp [Expr.needsMark, isName, Expr.head_canonical spelled paren])
      obtain ⟨front, d, bound, reads⟩ := each e List.mem_cons_self writtenFirst ends
      rw [ofString_append, List.append_assoc]
      refine ⟨by rintro _ ⟨⟩; exact front, max (d + 1) d', by rw [Expr.highest]; omega, ?_⟩
      exact .argument (reads.lone _ stops') (skipped.symm ▸ reads')

/-- Parameters are read whichever of the commas between them are missing. -/
theorem reads_loosened_parameters {params : List Ident} (names : ∀ p ∈ params, p.WellFormed)
    {text : String} (written : Loosened (Ident.listPieces params) text) {src : Source}
    (apart : src.Separates) (close : (Tokens.current (tokens src)).kind = .closeParen) :
    (∀ p ∈ params.head?, Tokens.current (tokens (ofString text ++ src)) = p.token) ∧
    ReadsParameters params (tokens (ofString text ++ src)) (tokens src) := by
  have stops : inParens (Tokens.current (tokens src)).kind = false := by rw [close]; rfl
  induction params generalizing text with
  | nil =>
    cases written.of_nil
    exact ⟨fun p hp => absurd hp (by simp), .nil stops⟩
  | cons p params ih =>
    have isName := names p List.mem_cons_self
    cases params with
    | nil =>
      cases written.of_last
      have skipped : Tokens.skipping .comma (tokens src) = tokens src :=
        Tokens.skipping_of_ne (by rw [close]; decide)
      have last : ReadsParameters [] (Tokens.skipping .comma (tokens src)) (tokens src) := by
        rw [skipped]
        exact .nil stops
      have whole := ReadsParameters.cons isName.kind_eq last
      rw [isName.ofToken_token] at whole
      rw [isName.tokens_ofString apart]
      exact ⟨by rintro _ ⟨⟩; rfl, whole⟩
    | cons p' params =>
      obtain ⟨behind, rfl, writtenBehind⟩ := written.of_fixed
      obtain ⟨later, spaced, goesOn⟩ := writtenBehind.ends (.inl rfl) (.ident p)
      obtain ⟨later, rfl, writtenLater⟩ := spaced.of_fixed
      obtain ⟨front', reads'⟩ := ih (fun q hq => names q (List.mem_cons_of_mem p hq)) writtenLater
      have next : tokens (ofString (" " ++ later) ++ src) = tokens (ofString later ++ src) := by
        rw [ofString_append, List.append_assoc, tokens_space]
      have nextName := (names p' (by simp)).kind_eq
      have starts := front' p' rfl
      obtain ⟨ends, -, skipped⟩ := goesOn next
        (by rw [starts, nextName]; rfl)
        (fun _ paren => by
          rw [starts, nextName] at paren
          exact absurd paren (by decide))
      have whole := ReadsParameters.cons isName.kind_eq (skipped.symm ▸ reads')
      rw [isName.ofToken_token] at whole
      rw [ofString_append, List.append_assoc, isName.tokens_ofString ends.separates]
      exact ⟨by rintro _ ⟨⟩; rfl, whole⟩

/-- The value of a statement makes the statement, wherever its mark is looked for. -/
theorem Stmt.reads_loosened_of_value {s : Stmt} (h : s.Spelled)
    (value : s.value.ReadsLoosened lossy) {text : String} (written : Loosened s.pieces text)
    {src : Source} (ends : s.value.EndsBefore src)
    (stops : climbs .lowest (Tokens.current (tokens src)).kind = false) :
    Tokens.current (tokens (ofString text ++ src)) = s.leadingToken ∧
    ∃ d ≤ 2 * s.height + 1,
      Reads lossy (.statement (s.retoken (Expr.leadingToken .full)))
        (tokens (ofString text ++ src)) (Tokens.skipping .semicolon (tokens src)) d := by
  rw [← Stmt.height_value]
  cases s with
  | binding token name v =>
    obtain ⟨rfl, isName⟩ := h
    obtain ⟨inner, rfl, writtenValue⟩ := written.of_fixed
    obtain ⟨-, d, bound, reads⟩ := value writtenValue ends
    have whole := Reads.binding (t := Kind.letWord.token) (n := name.token)
      (a := Kind.assignment.token) rfl isName.kind_eq rfl (reads.lone _ stops)
    rw [isName.ofToken_token] at whole
    simp only [ofString_append, List.append_assoc]
    rw [isName.tokens_binding]
    exact ⟨rfl, d + 1, Nat.succ_le_succ bound, whole⟩
  | ret token v =>
    cases h
    obtain ⟨inner, rfl, writtenValue⟩ := written.of_fixed
    obtain ⟨-, d, bound, reads⟩ := value writtenValue ends
    simp only [ofString_append, List.append_assoc]
    rw [tokens_return]
    exact ⟨rfl, d + 1, Nat.succ_le_succ bound,
      Reads.ret (t := Kind.returnWord.token) rfl (reads.lone _ stops)⟩
  | expr token v =>
    obtain ⟨front, d, bound, reads⟩ := value written ends
    have whole := Reads.bare (reads.lone _ stops)
    rw [front] at whole
    exact ⟨front, d + 1, Nat.succ_le_succ bound, whole⟩

/-- Statements are read whichever of the semicolons behind them are missing. -/
theorem reads_loosened_block (inBody : Bool) {ss : List Stmt} (wf : ∀ s ∈ ss, s.WellFormed)
    (each : ∀ s ∈ ss, s.value.ReadsLoosened lossy) {text : String}
    (written : Loosened (Stmt.listPieces ss) text) (src : Source)
    (stops : inBlock inBody (Tokens.current (tokens src)).kind = false) :
    (∀ s ∈ ss.head?, Tokens.current (tokens (ofString text ++ src)) = s.leadingToken) ∧
    ∃ d ≤ 2 * Stmt.highest ss + 1,
      Reads lossy (.block inBody (ss.map (Stmt.retoken (Expr.leadingToken .full))))
        (tokens (ofString text ++ src)) (tokens src) d := by
  induction ss generalizing text with
  | nil =>
    cases written.of_nil
    exact ⟨fun s hs => absurd hs (by simp), 0, Nat.zero_le _, .finish stops⟩
  | cons s ss ih =>
    obtain ⟨first, behind, rfl, writtenFirst, writtenBehind⟩ := written.of_append
    obtain ⟨later, writtenLater, goesOn⟩ := writtenBehind.ends (.inr rfl) s.value
    obtain ⟨front', d', bound', reads'⟩ :=
      ih (fun s' hs => wf s' (List.mem_cons_of_mem s hs))
        (fun s' hs => each s' (List.mem_cons_of_mem s hs)) writtenLater
    -- behind the statement stands the next one, or what ends the block
    have next : (Tokens.current (tokens (ofString later ++ src))).kind.startsAfresh = true ∧
        (s.value.isName = true → (Tokens.current (tokens (ofString later ++ src))).kind = .openParen →
          ss.head?.any (fun next => s.value.needsMark next.canonical) = true) := by
      cases ss with
      | nil =>
        cases writtenLater.of_nil
        obtain ⟨afresh, noParen⟩ := startsAfresh_of_inBlock stops
        exact ⟨afresh, fun _ paren => absurd paren noParen⟩
      | cons s' ss =>
        obtain ⟨spelled, below⟩ := Stmt.wellFormed_iff.mp (wf s' (by simp))
        have value := below.here.1
        rw [front' s' rfl]
        refine ⟨Stmt.startsAfresh_leadingToken spelled value, fun isName paren => ?_⟩
        simp [Expr.needsMark, isName, Stmt.head_canonical spelled value paren]
    obtain ⟨ends, climbs', skipped⟩ := goesOn rfl next.1 next.2
    obtain ⟨spelled, -⟩ := Stmt.wellFormed_iff.mp (wf s List.mem_cons_self)
    obtain ⟨front, d, bound, reads⟩ := Stmt.reads_loosened_of_value spelled
      (each s List.mem_cons_self) writtenFirst ends climbs'
    rw [skipped] at reads
    rw [ofString_append, List.append_assoc]
    refine ⟨by rintro _ ⟨⟩; exact front, max d d', by rw [Stmt.highest]; omega, ?_⟩
    exact .keep (reads.inBlock inBody) reads reads'

/-! ## Trees -/

/-- A sign and its operand: one expression is open for the operand, and one inside the parentheses. -/
theorem UnaryOp.readsLoosened (op : UnaryOp) {operand : Expr} (h : operand.ReadsLoosened lossy) :
    (Expr.unary op.kind.token op operand).ReadsLoosened lossy := by
  intro text written src _
  obtain ⟨inner, rfl, writtenOperand⟩ := written.of_enclosed
  have close := tokens_closeParen src
  have ends := operand.endsBefore_token (separates_ofString ")" rfl (by decide) src) close
    (by decide)
  obtain ⟨-, d, bound, reads⟩ := h writtenOperand ends
  have sign := op.tokens_symbol reads.operand_startsOperand
  rw [close] at reads
  have operation := Reads.unary (t := op.kind.token) rfl (reads.lone _ (climbs_unary _))
  have whole := Reads.grouped (o := Kind.openParen.token) rfl (operation.lone _ rfl) rfl
  simp only [ofString_append, List.append_assoc]
  rw [tokens_openParen, sign]
  exact ⟨rfl, d + 1 + 1, by rw [Expr.height]; omega, whole⟩

/-- An operator and its operands, in parentheses, behind which no operator climbs. -/
theorem BinaryOp.readsLoosened (op : BinaryOp) {left right : Expr}
    (hLeft : left.ReadsLoosened lossy) (hRight : right.ReadsLoosened lossy) :
    (Expr.binary op.kind.token left op right).ReadsLoosened lossy := by
  intro text written src _
  obtain ⟨textLeft, textRight, rfl, writtenLeft, writtenRight⟩ := written.of_enclosed_twice
  have close := tokens_closeParen src
  have sign := op.tokens_symbol (ofString textRight ++ (ofString ")" ++ src))
  have endsLeft := left.endsBefore_token (separates_ofString " " rfl (by decide) _) sign
    (by cases op <;> decide)
  have endsRight := right.endsBefore_token (separates_ofString ")" rfl (by decide) src) close
    (by decide)
  obtain ⟨-, d, bound, readsLeft⟩ := hLeft writtenLeft endsLeft
  obtain ⟨-, d', bound', readsRight⟩ := hRight writtenRight endsRight
  rw [sign] at readsLeft
  rw [close] at readsRight
  have atRight := readsRight.lone op.kind.precedence (by cases op <;> rfl)
  have operation := Reads.expression readsLeft
    (.extend rfl (decide_eq_true op.lowest_lt_precedence) atRight (.done rfl))
  have whole := Reads.grouped (o := Kind.openParen.token) rfl operation rfl
  simp only [ofString_append, List.append_assoc]
  rw [tokens_openParen]
  exact ⟨rfl, _, by rw [Expr.height]; omega, whole⟩

theorem Ident.WellFormed.readsLoosened_call {callee : Ident} (h : callee.WellFormed)
    {args : List Expr} (wf : ∀ a ∈ args, a.WellFormed) (each : ∀ a ∈ args, a.ReadsLoosened lossy) :
    (Expr.call callee args).ReadsLoosened lossy := by
  intro text written src _
  obtain ⟨inner, rfl, writtenArgs⟩ := written.of_enclosed
  have close := tokens_closeParen src
  obtain ⟨-, d, bound, reads⟩ := reads_loosened_arguments wf each writtenArgs
    (separates_ofString ")" rfl (by decide) src) (by rw [close]; rfl)
  rw [close] at reads
  have whole := Reads.call (o := Kind.openParen.token) h.kind_eq rfl reads rfl
  rw [h.ofToken_token] at whole
  simp only [ofString_append, List.append_assoc]
  rw [h.tokens_callee]
  exact ⟨rfl, d, by rw [Expr.height]; omega, by simpa [Expr.retoken] using whole⟩

/-- A function: its parameters end at the parenthesis, and its body at the brace. -/
theorem readsLoosened_function {params : List Ident} (names : ∀ p ∈ params, p.WellFormed)
    {body : List Stmt} (wf : ∀ s ∈ body, s.WellFormed)
    (each : ∀ s ∈ body, s.value.ReadsLoosened lossy) :
    (Expr.fn Kind.fnWord.token params body).ReadsLoosened lossy := by
  intro text written src _
  obtain ⟨textParams, textBody, rfl, writtenParams, writtenBody⟩ := written.of_enclosed_twice
  have close := tokens_bodyClose src
  have opens := tokens_bodyOpen (ofString textBody ++ (ofString " \x7d" ++ src))
  obtain ⟨-, d, bound, readsBody⟩ := reads_loosened_block true wf each writtenBody
    (ofString " \x7d" ++ src) (by rw [close]; rfl)
  obtain ⟨-, readsParams⟩ := reads_loosened_parameters names writtenParams
    (separates_ofString ") \x7b " rfl (by decide) _) (by rw [opens]; rfl)
  rw [close] at readsBody
  rw [opens] at readsParams
  have whole := Reads.function (t := Kind.fnWord.token) (o := Kind.openParen.token) rfl rfl
    readsParams rfl rfl readsBody rfl
  simp only [ofString_append, List.append_assoc]
  rw [tokens_function]
  exact ⟨rfl, d, by rw [Expr.height]; omega, by simpa [Expr.retoken] using whole⟩

/-- Every well-formed expression is read whichever of its marks are missing. -/
theorem Expr.readsLoosened {e : Expr} (h : e.WellFormed) : e.ReadsLoosened lossy := by
  induction e with
  | ident name =>
    intro text written src ends
    have isName : name.WellFormed := h.1
    cases written.of_last
    have whole : Reads lossy _ (name.token :: tokens src) (tokens src) 0 :=
      .name isName.kind_eq (ends.noCall rfl)
    rw [isName.ofToken_token] at whole
    rw [isName.tokens_ofString ends.separates]
    exact ⟨rfl, 0, Nat.zero_le _, whole⟩
  | int token value =>
    intro text written src ends
    obtain ⟨⟨kind, numeral⟩, rfl, small⟩ := h
    cases written.of_last
    have denotes := integerValue?_eq_some_iff.mpr ⟨numeral, rfl, small⟩
    rw [tokens_ofString_numeral kind numeral ends.separates]
    exact ⟨rfl, 0, Nat.zero_le _, .integer kind denotes⟩
  | bool token value =>
    intro text written src ends
    obtain ⟨rfl, -⟩ := h
    cases written.of_last
    rw [tokens_ofString_truth value ends.separates]
    exact ⟨rfl, 0, Nat.zero_le _, .boolean rfl⟩
  | unary token op operand ih =>
    obtain ⟨⟨rfl, -⟩, below⟩ := h
    exact op.readsLoosened (ih below)
  | binary token left op right ihLeft ihRight =>
    obtain ⟨⟨rfl, -⟩, belowLeft, belowRight⟩ := h
    exact op.readsLoosened (ihLeft belowLeft) (ihRight belowRight)
  | call callee args ih =>
    obtain ⟨⟨isName, -⟩, inside⟩ := h
    have wf := Expr.allEverywhere_iff.mp inside
    exact isName.readsLoosened_call wf fun a ha => ih a ha (wf a ha)
  | fn token params body ih =>
    obtain ⟨⟨⟨rfl, names⟩, -⟩, inside⟩ := h
    have wf := Stmt.allEverywhere_iff.mp inside
    exact readsLoosened_function names wf fun s hs =>
      ih s hs (Stmt.wellFormed_iff.mp (wf s hs)).2

/-- Whichever of its marks are missing, the text of a well-formed program reads as that program. -/
theorem Program.reads_loosened {p : Program} (h : p.WellFormed) {text : String}
    (loosened : p.Loosened text) :
    ∃ d ≤ 2 * Stmt.highest p.statements + 1,
      Reads lossy (.block false (p.retoken (Expr.leadingToken .full)).statements)
        (tokens (ofString text)) [Token.eof] d := by
  have each : ∀ s ∈ p.statements, s.value.ReadsLoosened lossy := fun s hs =>
    Expr.readsLoosened (Stmt.wellFormed_iff.mp (h s hs)).2
  obtain ⟨-, d, bound, reads⟩ := reads_loosened_block false h each loosened []
    (by rw [tokens_nil]; rfl)
  rw [List.append_nil, tokens_nil, ← Stmt.retokenAll_eq_map] at reads
  exact ⟨d, bound, reads⟩

end

end MonkeySyntax
