import MonkeySyntax.Proofs.Parser.Rules

/-!
# Readings

The parser is a deterministic function; a reading is its account of a success as a derivation.
`Reads lossy x ts rest depth` says that `x` is what stands between `ts` and its end piece `rest`, read
the way the parser does: operators by climbing, commas and semicolons whenever they are there, a name
in front of `(` as a callee. `depth` is how many expressions are open inside one another on the way.
Bodies whose broken statements are left out are only read if `lossy` holds.

* `Reads.suffix` — a reading only moves forward.
* `Reads.startsOperand` — expressions start with the start of an operand.
* `Reads.height_le` — operators only make an expression higher.
-/

namespace MonkeySyntax

open MonkeySyntax.Parser

/-- What is read. A `tail` is the chain of operators behind an expression `left`, which makes it `e`. -/
inductive Phrase where
  | operand (e : Expr)
  | tail (min : Precedence) (left e : Expr)
  | expression (min : Precedence) (e : Expr)
  | arguments (es : List Expr)
  | statement (s : Stmt)
  | block (inBody : Bool) (ss : List Stmt)

/-- The names of a parameter list, up to what ends it. -/
inductive ReadsParameters : List Ident → Tokens → Tokens → Prop
  | nil {ts : Tokens} : inParens ts.current.kind = false → ReadsParameters [] ts ts
  | cons {t : Token} {names : List Ident} {ts rest : Tokens} :
    t.kind = .identifier → ReadsParameters names (ts.skipping .comma) rest →
    ReadsParameters (Ident.ofToken t :: names) (t :: ts) rest

/-- The phrase stands between the tokens and their end piece, and is read with so many expressions
open inside one another. -/
inductive Reads (lossy : Prop) : Phrase → Tokens → Tokens → Nat → Prop
  | unary {t : Token} {op : UnaryOp} {e : Expr} {ts rest : Tokens} {d : Nat} :
    t.kind = op.kind → Reads lossy (.expression .unary e) ts rest d →
    Reads lossy (.operand (.unary t op e)) (t :: ts) rest d
  | integer {t : Token} {value : Nat} {ts : Tokens} :
    t.kind = .integer → integerValue? t.literal = some value →
    Reads lossy (.operand (.int t value)) (t :: ts) ts 0
  | boolean {t : Token} {value : Bool} {ts : Tokens} :
    (t.kind = if value then .trueWord else .falseWord) →
    Reads lossy (.operand (.bool t value)) (t :: ts) ts 0
  | grouped {o c : Token} {e : Expr} {ts rest : Tokens} {d : Nat} :
    o.kind = .openParen → Reads lossy (.expression .lowest e) ts (c :: rest) d →
    c.kind = .closeParen → Reads lossy (.operand e) (o :: ts) rest d
  | name {t : Token} {ts : Tokens} :
    t.kind = .identifier → ts.current.kind ≠ .openParen →
    Reads lossy (.operand (.ident (Ident.ofToken t))) (t :: ts) ts 0
  | call {t o c : Token} {args : List Expr} {ts rest : Tokens} {d : Nat} :
    t.kind = .identifier → o.kind = .openParen →
    Reads lossy (.arguments args) ts (c :: rest) d → c.kind = .closeParen →
    Reads lossy (.operand (.call (Ident.ofToken t) args)) (t :: o :: ts) rest d
  | function {t o c o' c' : Token} {params : List Ident} {body : List Stmt}
      {ts ts' rest : Tokens} {d : Nat} :
    t.kind = .fnWord → o.kind = .openParen → ReadsParameters params ts (c :: o' :: ts') →
    c.kind = .closeParen → o'.kind = .openBrace →
    Reads lossy (.block true body) ts' (c' :: rest) d → c'.kind = .closeBrace →
    Reads lossy (.operand (.fn t params body)) (t :: o :: ts) rest d
  | done {min : Precedence} {e : Expr} {ts : Tokens} :
    climbs min ts.current.kind = false → Reads lossy (.tail min e e) ts ts 0
  | extend {t : Token} {op : BinaryOp} {min : Precedence} {left right e : Expr}
      {ts ts' rest : Tokens} {d d' : Nat} :
    t.kind = op.kind → climbs min op.kind = true →
    Reads lossy (.expression op.kind.precedence right) ts ts' d →
    Reads lossy (.tail min (.binary t left op right) e) ts' rest d' →
    Reads lossy (.tail min left e) (t :: ts) rest (max d d')
  | expression {min : Precedence} {left e : Expr} {ts ts' rest : Tokens} {d d' : Nat} :
    Reads lossy (.operand left) ts ts' d → Reads lossy (.tail min left e) ts' rest d' →
    Reads lossy (.expression min e) ts rest (max d d' + 1)
  | noArguments {ts : Tokens} :
    inParens ts.current.kind = false → Reads lossy (.arguments []) ts ts 0
  | argument {e : Expr} {es : List Expr} {ts ts' rest : Tokens} {d d' : Nat} :
    Reads lossy (.expression .lowest e) ts ts' d →
    Reads lossy (.arguments es) (ts'.skipping .comma) rest d' →
    Reads lossy (.arguments (e :: es)) ts rest (max d d')
  | binding {t n a : Token} {e : Expr} {ts rest : Tokens} {d : Nat} :
    t.kind = .letWord → n.kind = .identifier → a.kind = .assignment →
    Reads lossy (.expression .lowest e) ts rest d →
    Reads lossy (.statement (.binding t (Ident.ofToken n) e)) (t :: n :: a :: ts)
      (rest.skipping .semicolon) d
  | ret {t : Token} {e : Expr} {ts rest : Tokens} {d : Nat} :
    t.kind = .returnWord → Reads lossy (.expression .lowest e) ts rest d →
    Reads lossy (.statement (.ret t e)) (t :: ts) (rest.skipping .semicolon) d
  | bare {e : Expr} {ts rest : Tokens} {d : Nat} :
    Reads lossy (.expression .lowest e) ts rest d →
    Reads lossy (.statement (.expr ts.current e)) ts (rest.skipping .semicolon) d
  | finish {inBody : Bool} {ts : Tokens} :
    inBlock inBody ts.current.kind = false → Reads lossy (.block inBody []) ts ts 0
  | keep {inBody : Bool} {s : Stmt} {ss : List Stmt} {ts ts' rest : Tokens} {d d' : Nat} :
    inBlock inBody ts.current.kind = true →
    Reads lossy (.statement s) ts ts' d → Reads lossy (.block inBody ss) ts' rest d' →
    Reads lossy (.block inBody (s :: ss)) ts rest (max d d')
  | drop {inBody : Bool} {ss : List Stmt} {ts ts' rest : Tokens} {d d' : Nat} :
    lossy → ts' <:+ ts → Reads lossy (.block inBody ss) ts' rest d' →
    Reads lossy (.block inBody ss) ts rest (max d d')

section

variable {lossy : Prop} {ts rest : Tokens} {d : Nat}

theorem ReadsParameters.suffix {names : List Ident} (h : ReadsParameters names ts rest) :
    rest <:+ ts := by
  induction h with
  | nil _ => exact List.suffix_refl _
  | cons _ _ ih =>
    exact (ih.trans (Tokens.skipping_suffix _ _)).trans (List.suffix_cons _ _)

/-- A reading only moves forward. -/
theorem Reads.suffix {x : Phrase} (h : Reads lossy x ts rest d) : rest <:+ ts := by
  induction h with
  | unary _ _ ih => exact ih.trans (List.suffix_cons _ _)
  | integer _ _ => exact List.suffix_cons _ _
  | boolean _ => exact List.suffix_cons _ _
  | grouped _ _ _ ih => exact ((List.suffix_cons _ _).trans ih).trans (List.suffix_cons _ _)
  | name _ _ => exact List.suffix_cons _ _
  | call _ _ _ _ ih =>
    exact ((List.suffix_cons _ _).trans ih).trans (List.suffix_append [_, _] _)
  | @function _ _ c o' _ _ _ _ _ _ _ _ _ params _ _ _ _ ih =>
    have body := ((List.suffix_cons _ _).trans ih).trans (List.suffix_append [c, o'] _)
    exact (body.trans params.suffix).trans (List.suffix_append [_, _] _)
  | done _ => exact List.suffix_refl _
  | extend _ _ _ _ ihRight ihTail => exact (ihTail.trans ihRight).trans (List.suffix_cons _ _)
  | expression _ _ ihLeft ihTail => exact ihTail.trans ihLeft
  | noArguments _ => exact List.suffix_refl _
  | argument _ _ ihFirst ihLater =>
    exact (ihLater.trans (Tokens.skipping_suffix _ _)).trans ihFirst
  | binding _ _ _ _ ih =>
    exact ((Tokens.skipping_suffix _ _).trans ih).trans (List.suffix_append [_, _, _] _)
  | ret _ _ ih => exact ((Tokens.skipping_suffix _ _).trans ih).trans (List.suffix_cons _ _)
  | bare _ ih => exact (Tokens.skipping_suffix _ _).trans ih
  | finish _ => exact List.suffix_refl _
  | keep _ _ _ ihFirst ihLater => exact ihLater.trans ihFirst
  | drop _ further _ ih => exact ih.trans further

theorem Reads.operand_startsOperand {e : Expr} (h : Reads lossy (.operand e) ts rest d) :
    ts.current.kind.startsOperand = true := by
  cases h with
  | @unary t op _ _ _ _ kind _ => rw [Tokens.current, kind]; cases op <;> rfl
  | integer kind _ => rw [Tokens.current, kind]; rfl
  | @boolean t value _ kind => rw [Tokens.current, kind]; cases value <;> rfl
  | grouped kind _ _ => rw [Tokens.current, kind]; rfl
  | name kind _ => rw [Tokens.current, kind]; rfl
  | call kind _ _ _ => rw [Tokens.current, kind]; rfl
  | function kind _ _ _ _ _ _ => rw [Tokens.current, kind]; rfl

/-- Expressions start with the start of an operand. -/
theorem Reads.startsOperand {min : Precedence} {e : Expr}
    (h : Reads lossy (.expression min e) ts rest d) : ts.current.kind.startsOperand = true := by
  cases h with
  | expression operand _ => exact operand.operand_startsOperand

/-- A block that is read without loss ends where it has to. -/
theorem Reads.block_stops {inBody : Bool} {ss : List Stmt}
    (h : Reads False (.block inBody ss) ts rest d) :
    Parser.inBlock inBody rest.current.kind = false := by
  -- the index has to be a variable for the induction; only blocks are of its form
  generalize hx : Phrase.block inBody ss = x at h
  induction h generalizing ss <;> cases hx
  case finish stops => exact stops
  case keep ih => exact ih rfl
  case drop loses _ _ _ => exact loses.elim

/-- A block goes on where there is a statement. -/
theorem Reads.inBlock {s : Stmt} (h : Reads lossy (.statement s) ts rest d) (inBody : Bool) :
    inBlock inBody ts.current.kind = true := by
  cases h with
  | binding kind _ _ _ => rw [Tokens.current, kind]; cases inBody <;> rfl
  | ret kind _ => rw [Tokens.current, kind]; cases inBody <;> rfl
  | bare value =>
    have starts := value.startsOperand
    cases kind : ts.current.kind <;> simp_all [Kind.startsOperand, Parser.inBlock]

/-- An operand is at least one token. -/
theorem Reads.operand_length_lt {e : Expr} (h : Reads lossy (.operand e) ts rest d) :
    rest.length < ts.length := by
  have shorter {t : Token} {ts' : Tokens} (further : rest <:+ ts') :
      rest.length < (t :: ts').length := Nat.lt_succ_of_le further.length_le
  cases h with
  | unary _ inner => exact shorter inner.suffix
  | integer _ _ => exact shorter (List.suffix_refl _)
  | boolean _ => exact shorter (List.suffix_refl _)
  | grouped _ inner _ => exact shorter ((List.suffix_cons _ _).trans inner.suffix)
  | name _ _ => exact shorter (List.suffix_refl _)
  | call _ _ args _ =>
    exact shorter (((List.suffix_cons _ _).trans args.suffix).trans (List.suffix_cons _ _))
  | @function _ _ c o' _ _ _ _ _ _ _ _ _ params _ _ body _ =>
    have further := ((List.suffix_cons _ _).trans body.suffix).trans (List.suffix_append [c, o'] _)
    exact shorter ((further.trans params.suffix).trans (List.suffix_cons _ _))

/-- An expression is at least one token. -/
theorem Reads.length_lt {min : Precedence} {e : Expr}
    (h : Reads lossy (.expression min e) ts rest d) : rest.length < ts.length := by
  cases h with
  | expression operand tail =>
    exact Nat.lt_of_le_of_lt tail.suffix.length_le operand.operand_length_lt

/-- A statement is at least one token. -/
theorem Reads.statement_length_lt {s : Stmt} (h : Reads lossy (.statement s) ts rest d) :
    rest.length < ts.length := by
  cases h with
  | @binding t n a _ _ mid _ _ _ _ value =>
    have skipped := (Tokens.skipping_suffix .semicolon mid).length_le
    have shorter := value.length_lt
    simp only [List.length_cons]
    omega
  | @ret t _ _ mid _ _ value =>
    have skipped := (Tokens.skipping_suffix .semicolon mid).length_le
    have shorter := value.length_lt
    simp only [List.length_cons]
    omega
  | bare value =>
    exact Nat.lt_of_le_of_lt (Tokens.skipping_suffix .semicolon _).length_le value.length_lt

/-- Operators only make an expression higher. -/
theorem Reads.height_le {min : Precedence} {left e : Expr}
    (h : Reads lossy (.tail min left e) ts rest d) : left.height ≤ e.height := by
  generalize hx : Phrase.tail min left e = x at h
  induction h generalizing left <;> cases hx
  case done => exact Nat.le_refl _
  case extend ihTail =>
    have further := ihTail rfl
    rw [Expr.height] at further
    omega

end

end MonkeySyntax
