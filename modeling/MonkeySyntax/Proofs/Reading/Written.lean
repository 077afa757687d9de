import MonkeySyntax.Proofs.Reading
import MonkeySyntax.Proofs.Tree.Retoken
import MonkeySyntax.Proofs.Tree.Written

/-!
# Reading written tokens

`Program.reads_written` — the tokens of a well-formed program, with parentheses in any style, read as
the program, in which every expression statement has its first token.

An operand that is no operand to the parser but a chain of operators is read piece by piece, while the
chain around it goes on: the left operand of `a * b + c` is only complete when the `+` does not climb.
So what is proved of an expression by induction is not that it is read, but that reading goes on behind
it with the expression on its left (`ReadsFirst`).

A tree of height `h` is read with at most `2 * h + 1` expressions open inside one another: one for the
operand and one for the parentheses of every node.
-/

namespace MonkeySyntax

open MonkeySyntax.Parser

/-! ## Levels -/

theorem Precedence.le_unary (p : Precedence) : p ≤ .unary := by
  cases p <;> decide

theorem Precedence.eq_unary {p : Precedence} (h : ¬p < .unary) : p = .unary := by
  cases p <;> first | rfl | exact absurd (by decide) h

theorem Precedence.not_le {p q : Precedence} : ¬p ≤ q ↔ q < p := Nat.not_le

/-- An operator that does not climb at some level does not climb at a tighter one. -/
theorem climbs_eq_false_of_le {min min' : Precedence} {kind : Kind}
    (h : climbs min kind = false) (le : min ≤ min') : climbs min' kind = false := by
  simp only [climbs, decide_eq_false_iff_not, Precedence.not_lt] at h ⊢
  exact Nat.le_trans h le

theorem climbs_unary (kind : Kind) : climbs .unary kind = false := by
  simpa only [climbs, decide_eq_false_iff_not, Precedence.not_lt] using Precedence.le_unary _

theorem BinaryOp.lowest_lt_precedence (op : BinaryOp) : .lowest < op.kind.precedence := by
  cases op <;> decide

theorem BinaryOp.precedence_lt_unary (op : BinaryOp) : op.kind.precedence < .unary := by
  cases op <;> decide

theorem BinaryOp.precedence_ne_unary (op : BinaryOp) : op.kind.precedence ≠ .unary := by
  cases op <;> decide

theorem Expr.lowest_lt_precedence (e : Expr) : .lowest < e.precedence := by
  cases e with
  | binary token left op right => exact op.lowest_lt_precedence
  | _ => exact (by decide : Precedence.lowest < .unary)

/-- How tightly an expression holds together where it stands: in parentheses, as tightly as an
operand. -/
def Style.level (style : Style) (p : Position) (e : Expr) : Precedence :=
  if style.parens p e then .unary else e.precedence

section

variable (style : Style) (e : Expr)

theorem Style.lowest_lt_level (p : Position) : Precedence.lowest < style.level p e := by
  unfold Style.level
  split
  · decide
  · exact e.lowest_lt_precedence

/-- Without parentheses, none are needed. -/
theorem Style.needsParens_eq_false {style : Style} {p : Position} {e : Expr}
    (h : ¬style.parens p e = true) : p.needsParens e = false :=
  Bool.eq_false_iff.mpr fun needed => h (style.enough p e needed)

theorem Style.level_behindSign : style.level .behindSign e = .unary := by
  unfold Style.level
  split
  · rfl
  · rename_i bare
    exact Precedence.eq_unary (of_decide_eq_false (Style.needsParens_eq_false bare))

theorem Style.le_level_leftOf (op : BinaryOp) :
    op.kind.precedence ≤ style.level (.leftOf op) e := by
  unfold Style.level
  split
  · exact Precedence.le_unary _
  · rename_i bare
    exact Precedence.not_lt.mp (of_decide_eq_false (Style.needsParens_eq_false bare))

theorem Style.lt_level_rightOf (op : BinaryOp) :
    op.kind.precedence < style.level (.rightOf op) e := by
  unfold Style.level
  split
  · exact op.precedence_lt_unary
  · rename_i bare
    exact Precedence.not_le.mp (of_decide_eq_false (Style.needsParens_eq_false bare))

end

/-! ## The start of an expression -/

/-- In front of `rest`, the tokens `ts` start an expression with `e`: whichever chain of operators goes
on behind them, it goes on with `e` on its left. That holds where the operators of `e` climb, or
anywhere if `e` is an operand. `d` expressions are open inside one another in `e`. -/
def ReadsFirst (lossy : Prop) (level : Precedence) (e : Expr) (ts : List Token) (rest : Tokens)
    (d : Nat) : Prop :=
  ∀ min e' rest' d', min < level ∨ level = .unary → Reads lossy (.tail min e e') rest rest' d' →
    Reads lossy (.expression min e') (ts ++ rest) rest' (max d d' + 1)

section

variable {lossy : Prop} {level : Precedence} {e : Expr} {ts : List Token} {rest : Tokens} {d : Nat}

/-- An operand starts any expression. -/
theorem Reads.first (ts : List Token) (h : Reads lossy (.operand e) (ts ++ rest) rest d) :
    ReadsFirst lossy level e ts rest d :=
  fun _ _ _ _ _ tail => .expression h tail

/-- What starts an expression is the whole of it if no operator climbs behind it. -/
theorem ReadsFirst.lone (h : ReadsFirst lossy level e ts rest d) {min : Precedence}
    (below : min < level ∨ level = .unary) (stops : climbs min rest.current.kind = false) :
    Reads lossy (.expression min e) (ts ++ rest) rest (d + 1) := by
  have whole := h min e rest 0 below (.done stops)
  rwa [Nat.max_zero] at whole

/-- Parentheses around an expression make an operand, for which one more expression is open. -/
theorem ReadsFirst.parens (h : ReadsFirst lossy level e ts (Kind.closeParen.token :: rest) d)
    (above : .lowest < level) :
    Reads lossy (.operand e) (parenthesizedTokens true ts ++ rest) rest (d + 1) := by
  have inside := h.lone (.inl above) rfl
  have whole := Reads.grouped (o := Kind.openParen.token) rfl inside rfl
  simpa [parenthesizedTokens] using whole

/-- What stands in front of the input is the token that was put there. -/
theorem Tokens.current_token_ne {kind other : Kind} (h : kind ≠ other) (ts : Tokens) :
    (Tokens.current (kind.token :: ts)).kind ≠ other := h

end

/-! ## What is proved of a tree -/

section

variable (lossy : Prop) (style : Style)

/-- Without parentheses around it, the expression starts an expression in front of all tokens that do
not go on with it: no operator that climbs, and behind a name no parenthesis that would make it a
callee. An operation leaves room for parentheses. -/
def Expr.ReadsBare (e : Expr) : Prop :=
  ∀ rest : Tokens, rest.current.kind ≠ .openParen → climbs e.precedence rest.current.kind = false →
    ∃ d ≤ 2 * e.height, (e.isOperation = true → d < 2 * e.height) ∧
      ReadsFirst lossy e.precedence (e.retoken (Expr.leadingToken style)) (e.writtenTokens style)
        rest d

/-- The expression that stands alone is read in front of all tokens that do not go on with it. -/
def Expr.ReadsAlone (e : Expr) : Prop :=
  ∀ rest : Tokens, rest.current.kind ≠ .openParen → climbs .lowest rest.current.kind = false →
    ∃ d ≤ 2 * e.height + 1,
      Reads lossy (.expression .lowest (e.retoken (Expr.leadingToken style)))
        (e.tokensAt style .alone ++ rest) rest d

/-- The statement is read whatever stands behind it. -/
def Stmt.ReadsBack (s : Stmt) : Prop :=
  ∀ rest : Tokens, ∃ d ≤ 2 * s.height + 1,
    Reads lossy (.statement (s.retoken (Expr.leadingToken style))) (s.writtenTokens style ++ rest)
      rest d

variable {lossy style}

/-- With parentheses or without, an expression starts an expression where it stands. -/
theorem Expr.ReadsBare.at {e : Expr} (h : e.ReadsBare lossy style) (p : Position) {rest : Tokens}
    (behind : rest.current.kind ≠ .openParen)
    (stops : climbs (style.level p e) rest.current.kind = false) :
    ∃ d ≤ 2 * e.height, ReadsFirst lossy (style.level p e) (e.retoken (Expr.leadingToken style))
      (e.tokensAt style p) rest d := by
  cases parens : style.parens p e with
  | false =>
    have bare : style.level p e = e.precedence := by simp [Style.level, parens]
    rw [bare] at stops ⊢
    obtain ⟨d, bound, -, first⟩ := h rest behind stops
    exact ⟨d, bound, by simpa [Expr.tokensAt, parens, parenthesizedTokens] using first⟩
  | true =>
    have stops : climbs .lowest .closeParen = false := rfl
    obtain ⟨d, -, room, first⟩ := h (Kind.closeParen.token :: rest)
      (Tokens.current_token_ne (by decide) rest)
      (climbs_eq_false_of_le stops (Nat.le_of_lt e.lowest_lt_precedence))
    have operand := first.parens e.lowest_lt_precedence
    refine ⟨d + 1, room (style.onlyOperations p e parens), ?_⟩
    rw [Expr.tokensAt, parens]
    exact operand.first _

theorem Expr.ReadsBare.alone {e : Expr} (h : e.ReadsBare lossy style) : e.ReadsAlone lossy style := by
  intro rest behind stops
  have above := style.lowest_lt_level e .alone
  obtain ⟨d, bound, first⟩ :=
    h.at .alone behind (climbs_eq_false_of_le stops (Nat.le_of_lt above))
  exact ⟨d + 1, Nat.succ_le_succ bound, first.lone (.inl above) stops⟩

/-! ## Lists -/

section

variable (rest : Tokens) {c : Token}

theorem reads_arguments {es : List Expr} (close : c.kind = .closeParen)
    (each : ∀ e ∈ es, e.ReadsAlone lossy style) :
    ∃ d ≤ 2 * Expr.highest es + 1,
      Reads lossy (.arguments (es.map (Expr.retoken (Expr.leadingToken style))))
        ([Kind.comma.token].intercalate (es.map (Expr.tokensAt style .alone)) ++ c :: rest)
        (c :: rest) d := by
  have stops : inParens (Tokens.current (c :: rest)).kind = false := by
    rw [Tokens.current_cons, close]
    rfl
  induction es with
  | nil => exact ⟨0, Nat.zero_le _, .noArguments stops⟩
  | cons e es ih =>
    obtain ⟨d', bound', later⟩ := ih fun e' he => each e' (List.mem_cons_of_mem e he)
    cases es with
    | nil =>
      -- no comma stands behind the last argument
      obtain ⟨d, bound, first⟩ := each e List.mem_cons_self (c :: rest)
        (by rw [Tokens.current_cons, close]; decide) (by rw [Tokens.current_cons, close]; rfl)
      have skipped : Tokens.skipping .comma (c :: rest) = c :: rest :=
        Tokens.skipping_of_ne (by rw [Tokens.current_cons, close]; decide)
      refine ⟨max d 0, by rw [Expr.highest, Expr.highest]; omega, ?_⟩
      have whole := Reads.argument first (by rw [skipped]; exact .noArguments stops)
      simpa using whole
    | cons e' es =>
      obtain ⟨d, bound, first⟩ := each e List.mem_cons_self (Kind.comma.token ::
        ([Kind.comma.token].intercalate ((e' :: es).map (Expr.tokensAt style .alone)) ++ c :: rest))
        (Tokens.current_token_ne (by decide) _) rfl
      refine ⟨max d d', by rw [Expr.highest]; omega, ?_⟩
      have whole := Reads.argument first later
      simpa [List.intercalate_cons_cons] using whole

theorem reads_parameters {params : List Ident} (names : ∀ p ∈ params, p.WellFormed)
    (close : c.kind = .closeParen) :
    ReadsParameters params
      ([Kind.comma.token].intercalate (params.map fun p => [p.token]) ++ c :: rest) (c :: rest) := by
  have stops : inParens (Tokens.current (c :: rest)).kind = false := by
    rw [Tokens.current_cons, close]
    rfl
  induction params with
  | nil => exact .nil stops
  | cons p params ih =>
    have later := ih fun p' hp => names p' (List.mem_cons_of_mem p hp)
    have isName := names p List.mem_cons_self
    have same : Ident.ofToken p.token = p := isName.ofToken_token
    cases params with
    | nil =>
      have skipped : Tokens.skipping .comma (c :: rest) = c :: rest :=
        Tokens.skipping_of_ne (by rw [Tokens.current_cons, close]; decide)
      have whole := ReadsParameters.cons isName.kind_eq (by rw [skipped]; exact later)
      rwa [same] at whole
    | cons p' params =>
      have whole : ReadsParameters (Ident.ofToken p.token :: p' :: params)
          (p.token :: Kind.comma.token ::
            ([Kind.comma.token].intercalate ((p' :: params).map fun p => [p.token]) ++ c :: rest))
          (c :: rest) := .cons isName.kind_eq later
      rw [same] at whole
      simpa [List.intercalate_cons_cons] using whole

theorem reads_block (inBody : Bool) {ss : List Stmt}
    (stops : inBlock inBody rest.current.kind = false)
    (each : ∀ s ∈ ss, s.ReadsBack lossy style) :
    ∃ d ≤ 2 * Stmt.highest ss + 1,
      Reads lossy (.block inBody (ss.map (Stmt.retoken (Expr.leadingToken style))))
        ((ss.map (Stmt.writtenTokens style)).flatten ++ rest) rest d := by
  induction ss with
  | nil => exact ⟨0, Nat.zero_le _, .finish stops⟩
  | cons s ss ih =>
    obtain ⟨d', bound', later⟩ := ih fun s' hs => each s' (List.mem_cons_of_mem s hs)
    obtain ⟨d, bound, first⟩ := each s List.mem_cons_self
      ((ss.map (Stmt.writtenTokens style)).flatten ++ rest)
    refine ⟨max d d', by rw [Stmt.highest]; omega, ?_⟩
    have whole := Reads.keep (first.inBlock inBody) first later
    simpa using whole

end

/-! ## Trees -/

/-- The value of a statement and the `;` behind it make the statement. -/
theorem Stmt.readsBack_of_value {s : Stmt} (h : s.WellFormed)
    (value : s.value.ReadsAlone lossy style) : s.ReadsBack lossy style := by
  intro rest
  obtain ⟨spelled, below⟩ := Stmt.wellFormed_iff.mp h
  obtain ⟨d, bound, reads⟩ := value (Kind.semicolon.token :: rest)
    (Tokens.current_token_ne (by decide) rest) rfl
  rw [Stmt.height_value] at bound
  refine ⟨d, bound, ?_⟩
  have dropped : Tokens.skipping .semicolon (Kind.semicolon.token :: rest) = rest :=
    Tokens.skipping_cons (by decide) rfl rest
  cases s with
  | binding token name v =>
    obtain ⟨rfl, isName⟩ := spelled
    have whole := Reads.binding (t := Kind.letWord.token) (n := name.token)
      (a := Kind.assignment.token) rfl isName.kind_eq rfl reads
    rw [dropped, isName.ofToken_token] at whole
    simpa [Stmt.writtenTokens, Expr.tokensAt, Stmt.retoken, Stmt.value] using whole
  | ret token v =>
    cases spelled
    have whole := Reads.ret (t := Kind.returnWord.token) rfl reads
    rw [dropped] at whole
    simpa [Stmt.writtenTokens, Expr.tokensAt, Stmt.retoken, Stmt.value] using whole
  | expr token v =>
    have inside : v.Everywhere Expr.Spelled Stmt.Spelled := h.printable.2
    obtain ⟨t, ts, front, -⟩ := Expr.tokensAt_eq_cons style inside .alone
    have first : Tokens.current (v.tokensAt style .alone ++ Kind.semicolon.token :: rest) =
        v.leadingToken style := by
      rw [Expr.leadingToken, front]
      rfl
    have whole := Reads.bare reads
    rw [dropped, show (Stmt.expr token v).value = v from rfl, first] at whole
    simpa [Stmt.writtenTokens, Expr.tokensAt, Stmt.retoken] using whole

/-- Every well-formed expression is read piece by piece where its operators climb. -/
theorem Expr.readsBare {e : Expr} (h : e.WellFormed) : e.ReadsBare lossy style := by
  induction e with
  | ident name =>
    intro rest behind _
    have isName : name.WellFormed := h.1
    have whole : Reads lossy _ (name.token :: rest) rest 0 := .name isName.kind_eq behind
    rw [isName.ofToken_token] at whole
    exact ⟨0, Nat.zero_le _, by rintro ⟨⟩, Reads.first [name.token] whole⟩
  | int token value =>
    intro rest _ _
    obtain ⟨⟨kind, numeral⟩, rfl, small⟩ := h
    have denotes := integerValue?_eq_some_iff.mpr ⟨numeral, rfl, small⟩
    exact ⟨0, Nat.zero_le _, by rintro ⟨⟩, Reads.first [token] (.integer kind denotes)⟩
  | bool token value =>
    intro rest _ _
    obtain ⟨rfl, -⟩ := h
    exact ⟨0, Nat.zero_le _, by rintro ⟨⟩, Reads.first [_] (.boolean rfl)⟩
  | unary token op operand ih =>
    intro rest behind _
    obtain ⟨⟨rfl, -⟩, below⟩ := h
    have tight := style.level_behindSign operand
    obtain ⟨d, bound, first⟩ := (ih below).at .behindSign behind (tight ▸ climbs_unary _)
    -- one more expression is open for the operand of the sign
    have sign := Reads.unary (t := op.kind.token) rfl (first.lone (.inr tight) (climbs_unary _))
    refine ⟨d + 1, by rw [Expr.height]; omega, fun _ => by rw [Expr.height]; omega, ?_⟩
    exact Reads.first (op.kind.token :: operand.tokensAt style .behindSign) sign
  | binary token left op right ihLeft ihRight =>
    intro rest behind stops
    obtain ⟨⟨rfl, -⟩, belowLeft, belowRight⟩ := h
    -- the operator does not climb over the left operand, nor what follows over the right one
    have tightLeft := style.le_level_leftOf left op
    have tightRight := style.lt_level_rightOf right op
    have stopsLeft : climbs (style.level (.leftOf op) left) op.kind = false :=
      decide_eq_false (Precedence.not_lt.mpr tightLeft)
    have noCall : op.kind ≠ .openParen := by cases op <;> decide
    have behindLeft :=
      Tokens.current_token_ne noCall (right.tokensAt style (.rightOf op) ++ rest)
    obtain ⟨d, bound, firstLeft⟩ := (ihLeft belowLeft).at (.leftOf op) behindLeft stopsLeft
    obtain ⟨d', bound', firstRight⟩ := (ihRight belowRight).at (.rightOf op) behind
      (climbs_eq_false_of_le stops (Nat.le_of_lt tightRight))
    have atRight := firstRight.lone (.inl tightRight) stops
    refine ⟨max d (d' + 1), by rw [Expr.height]; omega, fun _ => by rw [Expr.height]; omega, ?_⟩
    intro min e' rest' d'' below tail
    have below : min < op.kind.precedence := below.resolve_right op.precedence_ne_unary
    have chain := Reads.extend (t := op.kind.token) rfl (decide_eq_true below) atRight tail
    have whole := firstLeft min e' rest' _ (.inl (Nat.lt_of_lt_of_le below tightLeft)) chain
    rw [← Nat.max_assoc] at whole
    simpa [Expr.writtenTokens, Expr.tokensAt] using whole
  | call callee args ih =>
    intro rest _ _
    obtain ⟨⟨isName, -⟩, inside⟩ := h
    have each : ∀ a ∈ args, a.ReadsAlone lossy style := fun a ha =>
      (ih a ha (Expr.allEverywhere_iff.mp inside a ha)).alone
    obtain ⟨d, bound, reads⟩ := reads_arguments rest (c := Kind.closeParen.token) rfl each
    have whole := Reads.call (o := Kind.openParen.token) isName.kind_eq rfl reads rfl
    rw [isName.ofToken_token] at whole
    refine ⟨d, by rw [Expr.height]; omega, by rintro ⟨⟩, Reads.first _ ?_⟩
    simpa [Expr.writtenTokens, Expr.retoken] using whole
  | fn token params body ih =>
    intro rest _ _
    obtain ⟨⟨⟨rfl, names⟩, -⟩, inside⟩ := h
    have each : ∀ s ∈ body, s.ReadsBack lossy style := by
      intro s hs
      have wf := Stmt.allEverywhere_iff.mp inside s hs
      exact Stmt.readsBack_of_value wf (ih s hs (Stmt.wellFormed_iff.mp wf).2).alone
    obtain ⟨d, bound, readsBody⟩ :=
      reads_block (Kind.closeBrace.token :: rest) true rfl each
    have readsParams := reads_parameters (Kind.openBrace.token ::
      ((body.map (Stmt.writtenTokens style)).flatten ++ Kind.closeBrace.token :: rest))
      (c := Kind.closeParen.token) names rfl
    have whole := Reads.function (t := Kind.fnWord.token) (o := Kind.openParen.token) rfl rfl
      readsParams rfl rfl readsBody rfl
    refine ⟨d, by rw [Expr.height]; omega, by rintro ⟨⟩, Reads.first _ ?_⟩
    simpa [Expr.writtenTokens, Expr.retoken] using whole

variable (style) in
/-- The tokens of a well-formed program read as that program. -/
theorem Program.reads_written {p : Program} (h : p.WellFormed) :
    ∃ d ≤ 2 * Stmt.highest p.statements + 1,
      Reads lossy (.block false (p.retoken (Expr.leadingToken style)).statements)
        (p.writtenTokens style ++ [Token.eof]) [Token.eof] d := by
  have each : ∀ s ∈ p.statements, s.ReadsBack lossy style := fun s hs =>
    Stmt.readsBack_of_value (h s hs) (Expr.readsBare (Stmt.wellFormed_iff.mp (h s hs)).2).alone
  have whole := reads_block [Token.eof] false rfl each
  rwa [← Stmt.retokenAll_eq_map, ← List.flatMap_def] at whole

end

end MonkeySyntax
