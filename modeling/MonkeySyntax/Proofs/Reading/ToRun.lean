import MonkeySyntax.Proofs.Reading

/-!
# From readings to runs

`Reads.runsOn` — what can be read without loss is what the parser gives, provided that the tree and the
depth are within the two limits. Beyond them, the first error is that expressions are nested too
deeply.

Both limits are exact: the condition is `Fits`, in both directions.
-/

namespace MonkeySyntax

open MonkeySyntax.Parser

/-- A tree and a depth are within the limits that `room` more open expressions leave. -/
def Fits (room height depth : Nat) : Prop := height ≤ maxHeight ∧ depth ≤ room

/-- What the parser is expected to do on a phrase that reaches from `ts` to `rest`. The chain of
operators behind an expression is only reached if that expression is within the limit itself. -/
def Phrase.RunsOn (ts rest : Tokens) (d : Nat) : Phrase → Prop
  | .operand e => ∀ room, ((Parser.operand (Parser.expression room)).run ts).GivesIf
      (Fits room e.height d) e.measured rest d
  | .tail min left e => ∀ room, left.height ≤ maxHeight →
      ((Parser.operators (Parser.expression room) min left.measured).run ts).GivesIf
        (Fits room e.height d) e.measured rest d
  | .expression min e => ∀ room, ((Parser.expression room min).run ts).GivesIf
      (Fits room e.height d) e.measured rest d
  | .arguments es => ∀ room, ((Parser.arguments (Parser.expression room)).run ts).GivesIf
      (Fits room (Expr.highest es) d) (es.map Expr.measured) rest d
  | .statement s => ∀ room, ((Parser.statement (Parser.expression room)).run ts).GivesIf
      (Fits room s.height d) s.measured rest d
  | .block inBody ss => ∀ room, ((Parser.rounds (Parser.expression room) inBody).run ts).GivesIf
      (Fits room (Stmt.highest ss) d) (ss.map (some ·.measured)) rest d

/-! ## Small rules -/

section

variable {α : Type} {fits : Prop} {a : α} {ts rest : Tokens} {reach : Nat}

theorem givesIf_expect {t : Token} {kind : Kind} (h : t.kind = kind) (notEof : kind ≠ .eof)
    {next : Token → Parser α} (second : ((next t).run ts).GivesIf fits a rest reach) :
    ((expect kind >>= next).run (t :: ts)).GivesIf fits a rest reach :=
  givesIf_bind_of_run_eq (run_expect_cons h notEof ts) second

theorem givesIf_identifier {t : Token} (h : t.kind = .identifier) {next : Ident → Parser α}
    (second : ((next (Ident.ofToken t)).run ts).GivesIf fits a rest reach) :
    ((identifier >>= next).run (t :: ts)).GivesIf fits a rest reach :=
  givesIf_bind_of_run_eq (run_identifier_cons h ts) second

theorem givesIf_skip {kind : Kind} {next : Unit → Parser α}
    (second : ((next ()).run (ts.skipping kind)).GivesIf fits a rest reach) :
    ((skip kind >>= next).run ts).GivesIf fits a rest reach :=
  givesIf_bind_of_run_eq rfl second

/-- A node above a tree: its height has to stay within the limit. -/
theorem givesIf_node {height : Nat} {f : Nat → α} :
    ((above height >>= fun h => pure (f h)).run ts).GivesIf (height + 1 ≤ maxHeight)
      (f (height + 1)) ts 0 :=
  givesIf_map f (givesIf_above height ts)

theorem ReadsParameters.run {names : List Ident} (h : ReadsParameters names ts rest) :
    (collect inParens parameter (consumes_parameter.progresses _)).run ts =
      ⟨.ok names, [], rest, 0⟩ := by
  have exactly : ((collect inParens parameter (consumes_parameter.progresses _)).run ts).GivesIf
      True names rest 0 := by
    induction h with
    | nil stops => exact givesIf_collect_nil stops
    | @cons t names ts rest kind _ ih =>
      have goesOn : inParens (Tokens.current (t :: ts)).kind = true := by
        rw [Tokens.current_cons, kind]
        rfl
      have one : (parameter.run (t :: ts)).GivesIf True (Ident.ofToken t) (ts.skipping .comma) 0 := by
        apply givesIf_identifier kind
        apply givesIf_skip
        exact givesIf_pure _ _
      exact (givesIf_collect_cons goesOn one ih).congr (and_iff_left trivial) rfl
  rcases exactly with ⟨-, given⟩ | ⟨never, -⟩
  · exact given
  · exact absurd trivial never

end

/-! ## Rules -/

section

variable {expr : Precedence → Rule (Measured Expr)} {ts ts' rest : Tokens} {room d d' : Nat}

theorem givesIf_operand_unary {t : Token} {op : UnaryOp} {e : Expr} (kind : t.kind = op.kind)
    (inner : ((expr .unary).run ts).GivesIf (Fits room e.height d) e.measured rest d) :
    ((Parser.operand expr).run (t :: ts)).GivesIf (Fits room (Expr.unary t op e).height d)
      (Expr.unary t op e).measured rest d := by
  have run : ((unaryExpression expr op).run (t :: ts)).GivesIf
      (Fits room e.height d ∧ e.height + 1 ≤ maxHeight) (Expr.unary t op e).measured rest
      (max d 0) := by
    apply givesIf_expect kind op.kind_ne_eof
    apply givesIf_bind inner
    intro _
    exact givesIf_node
  rw [run_operand_unary kind]
  refine run.congr ?_ (Nat.max_zero d)
  simp only [Fits, Expr.height]
  omega

theorem givesIf_operand_integer {t : Token} {value : Nat} (kind : t.kind = .integer)
    (denotes : integerValue? t.literal = some value) :
    ((Parser.operand expr).run (t :: ts)).GivesIf True (Expr.int t value).measured ts 0 := by
  rw [run_operand_integer kind, integerExpression, run_current_bind, Tokens.current_cons, denotes]
  apply givesIf_expect kind (by decide)
  exact givesIf_pure _ ts

theorem givesIf_operand_boolean {t : Token} {value : Bool}
    (kind : t.kind = if value then .trueWord else .falseWord) :
    ((Parser.operand expr).run (t :: ts)).GivesIf True (Expr.bool t value).measured ts 0 := by
  rw [run_operand_boolean kind]
  apply givesIf_expect kind (by cases value <;> decide)
  exact givesIf_pure _ ts

theorem givesIf_operand_grouped {o c : Token} {e : Expr} (kind : o.kind = .openParen)
    (inner : ((expr .lowest).run ts).GivesIf (Fits room e.height d) e.measured (c :: rest) d)
    (kind' : c.kind = .closeParen) :
    ((Parser.operand expr).run (o :: ts)).GivesIf (Fits room e.height d) e.measured rest d := by
  have run : ((groupedExpression expr).run (o :: ts)).GivesIf (Fits room e.height d ∧ True)
      e.measured rest (max d 0) := by
    apply givesIf_expect kind (by decide)
    apply givesIf_bind inner
    intro _
    apply givesIf_expect kind' (by decide)
    exact givesIf_pure _ rest
  rw [run_operand_grouped kind]
  exact run.congr (and_iff_left trivial) (Nat.max_zero d)

theorem givesIf_operand_name {t : Token} (kind : t.kind = .identifier)
    (behind : ts.current.kind ≠ .openParen) :
    ((Parser.operand expr).run (t :: ts)).GivesIf True (Expr.ident (Ident.ofToken t)).measured ts
      0 := by
  rw [run_operand_name kind behind]
  apply givesIf_identifier kind
  exact givesIf_pure _ ts

theorem givesIf_operand_call {t o c : Token} {args : List Expr} (kind : t.kind = .identifier)
    (kindOpen : o.kind = .openParen)
    (list : ((Parser.arguments expr).run ts).GivesIf (Fits room (Expr.highest args) d)
      (args.map Expr.measured) (c :: rest) d) (kindClose : c.kind = .closeParen) :
    ((Parser.operand expr).run (t :: o :: ts)).GivesIf
      (Fits room (Expr.call (Ident.ofToken t) args).height d)
      (Expr.call (Ident.ofToken t) args).measured rest d := by
  have run : ((callExpression expr).run (t :: o :: ts)).GivesIf
      (Fits room (Expr.highest args) d ∧ Measured.highest (args.map Expr.measured) + 1 ≤ maxHeight)
      ⟨.call (Ident.ofToken t) ((args.map Expr.measured).map Measured.value),
        Measured.highest (args.map Expr.measured) + 1⟩ rest (max d 0) := by
    apply givesIf_identifier kind
    apply givesIf_expect kindOpen (by decide)
    apply givesIf_bind list
    intro _
    apply givesIf_expect kindClose (by decide)
    exact givesIf_node
  rw [Expr.values_measured, Expr.highest_measured] at run
  have behind : (Tokens.current (o :: ts)).kind = .openParen := kindOpen
  rw [run_operand_call kind behind]
  refine run.congr ?_ (Nat.max_zero d)
  simp only [Fits, Expr.height]
  omega

theorem givesIf_operand_function {t o c o' c' : Token} {params : List Ident} {body : List Stmt}
    (kind : t.kind = .fnWord) (kindOpen : o.kind = .openParen)
    (list : ReadsParameters params ts (c :: o' :: ts')) (kindClose : c.kind = .closeParen)
    (kindOpen' : o'.kind = .openBrace)
    (block : ((Parser.block expr true).run ts').GivesIf (Fits room (Stmt.highest body) d)
      ⟨body, Stmt.highest body⟩ (c' :: rest) d) (kindClose' : c'.kind = .closeBrace) :
    ((Parser.operand expr).run (t :: o :: ts)).GivesIf (Fits room (Expr.fn t params body).height d)
      (Expr.fn t params body).measured rest d := by
  have run : ((fnExpression expr).run (t :: o :: ts)).GivesIf
      (Fits room (Stmt.highest body) d ∧ Stmt.highest body + 1 ≤ maxHeight)
      (Expr.fn t params body).measured rest (max d 0) := by
    apply givesIf_expect kind (by decide)
    apply givesIf_expect kindOpen (by decide)
    apply givesIf_bind_of_run_eq list.run
    apply givesIf_expect kindClose (by decide)
    apply givesIf_expect kindOpen' (by decide)
    apply givesIf_bind block
    intro _
    apply givesIf_expect kindClose' (by decide)
    exact givesIf_node
  rw [run_operand_function kind]
  refine run.congr ?_ (Nat.max_zero d)
  simp only [Fits, Expr.height]
  omega

/-- One operator and its right operand. -/
theorem givesIf_extend {t : Token} {op : BinaryOp} {right : Expr} (left : Expr)
    (kind : t.kind = op.kind)
    (operand : ((expr op.kind.precedence).run ts).GivesIf (Fits room right.height d) right.measured
      rest d) :
    ((Parser.extend expr left.measured).run (t :: ts)).GivesIf
      (Fits room right.height d ∧ max left.height right.height + 1 ≤ maxHeight)
      (Expr.binary t left op right).measured rest d := by
  have run : ((binaryExpression expr left.measured op).run (t :: ts)).GivesIf
      (Fits room right.height d ∧ max left.height right.height + 1 ≤ maxHeight)
      (Expr.binary t left op right).measured rest (max d 0) := by
    apply givesIf_expect kind op.kind_ne_eof
    apply givesIf_bind operand
    intro _
    exact givesIf_node
  rw [Nat.max_zero] at run
  rwa [Parser.extend, run_current_bind, Tokens.current_cons, BinaryOp.ofKind?_eq_some.mpr kind]

theorem givesIf_argument {e : Expr}
    (value : ((expr .lowest).run ts).GivesIf (Fits room e.height d) e.measured rest d) :
    ((Parser.argument expr).run ts).GivesIf (Fits room e.height d) e.measured
      (rest.skipping .comma) d := by
  have run : ((Parser.argument expr).run ts).GivesIf (Fits room e.height d ∧ True) e.measured
      (rest.skipping .comma) (max d 0) := by
    apply givesIf_bind value
    intro _
    apply givesIf_skip
    exact givesIf_pure _ _
  exact run.congr (and_iff_left trivial) (Nat.max_zero d)

/-- The value of a statement and the `;` behind it end every statement. -/
theorem givesIf_value {e : Expr} {f : Measured Expr → Measured Stmt}
    (value : ((expr .lowest).run ts).GivesIf (Fits room e.height d) e.measured rest d) :
    (((expr .lowest).toParser >>= fun v => skip .semicolon >>= fun _ => pure (f v)).run ts).GivesIf
      (Fits room e.height d) (f e.measured) (rest.skipping .semicolon) d := by
  have run : (((expr .lowest).toParser >>= fun v => skip .semicolon >>= fun _ => pure (f v)).run
      ts).GivesIf (Fits room e.height d ∧ True) (f e.measured) (rest.skipping .semicolon)
      (max d 0) := by
    apply givesIf_bind value
    intro _
    apply givesIf_skip
    exact givesIf_pure _ _
  exact run.congr (and_iff_left trivial) (Nat.max_zero d)

theorem givesIf_statement_binding {t n a : Token} {e : Expr} (kind : t.kind = .letWord)
    (kindName : n.kind = .identifier) (kindSign : a.kind = .assignment)
    (value : ((expr .lowest).run ts).GivesIf (Fits room e.height d) e.measured rest d) :
    ((Parser.statement expr).run (t :: n :: a :: ts)).GivesIf (Fits room e.height d)
      (Stmt.binding t (Ident.ofToken n) e).measured (rest.skipping .semicolon) d := by
  rw [Parser.statement, run_current_bind, Tokens.current_cons, kind]
  apply givesIf_expect kind (by decide)
  apply givesIf_identifier kindName
  apply givesIf_expect kindSign (by decide)
  exact givesIf_value value

theorem givesIf_statement_ret {t : Token} {e : Expr} (kind : t.kind = .returnWord)
    (value : ((expr .lowest).run ts).GivesIf (Fits room e.height d) e.measured rest d) :
    ((Parser.statement expr).run (t :: ts)).GivesIf (Fits room e.height d)
      (Stmt.ret t e).measured (rest.skipping .semicolon) d := by
  rw [Parser.statement, run_current_bind, Tokens.current_cons, kind]
  apply givesIf_expect kind (by decide)
  exact givesIf_value value

theorem givesIf_statement_bare {e : Expr} (starts : ts.current.kind.startsOperand = true)
    (value : ((expr .lowest).run ts).GivesIf (Fits room e.height d) e.measured rest d) :
    ((Parser.statement expr).run ts).GivesIf (Fits room e.height d)
      (Stmt.expr ts.current e).measured (rest.skipping .semicolon) d := by
  have choice : (Parser.statement expr).run ts = (expressionStatement expr).run ts := by
    rw [Parser.statement, run_current_bind]
    split <;> simp_all [Kind.startsOperand]
  rw [choice, expressionStatement, run_current_bind]
  exact givesIf_value value

/-- Where a statement is read, there is nothing to recover from. -/
theorem givesIf_round {inBody : Bool} {s : Stmt}
    (first : ((Parser.statement expr).run ts).GivesIf (Fits room s.height d) s.measured rest d) :
    ((Parser.statementOrSkip expr inBody).run ts).GivesIf (Fits room s.height d) (some s.measured)
      rest d :=
  givesIf_recovering first

end

/-! ## Whole phrases -/

/-- A block keeps every statement of which it has read one. -/
theorem Phrase.RunsOn.block {inBody : Bool} {ss : List Stmt} {ts rest : Tokens} {d : Nat}
    (h : (Phrase.block inBody ss).RunsOn ts rest d) (room : Nat) :
    ((Parser.block (Parser.expression room) inBody).run ts).GivesIf
      (Fits room (Stmt.highest ss) d) ⟨ss, Stmt.highest ss⟩ rest d := by
  have kept : (ss.map (some ·.measured)).filterMap id = ss.map Stmt.measured := by
    rw [List.filterMap_map]
    exact congrFun List.filterMap_eq_map ss
  have value : (⟨ss, Stmt.highest ss⟩ : Measured (List Stmt)) =
      ⟨((ss.map (some ·.measured)).filterMap id).map Measured.value,
        Measured.highest ((ss.map (some ·.measured)).filterMap id)⟩ := by
    rw [kept, Stmt.values_measured, Stmt.highest_measured]
  rw [value]
  exact givesIf_map _ (h room)

/-- The parser gives what can be read without loss, up to the limits exactly. -/
theorem Reads.runsOn {x : Phrase} {ts rest : Tokens} {d : Nat} (h : Reads False x ts rest d) :
    x.RunsOn ts rest d := by
  induction h with
  | unary kind _ ih =>
    intro room
    exact givesIf_operand_unary kind (ih room)
  | integer kind denotes =>
    intro room
    refine (givesIf_operand_integer kind denotes).congr ?_ rfl
    simp [Fits, Expr.height]
  | boolean kind =>
    intro room
    refine (givesIf_operand_boolean kind).congr ?_ rfl
    simp [Fits, Expr.height]
  | grouped kind _ kind' ih =>
    intro room
    exact givesIf_operand_grouped kind (ih room) kind'
  | name kind behind =>
    intro room
    refine (givesIf_operand_name kind behind).congr ?_ rfl
    simp [Fits, Expr.height]
  | call kind kindOpen _ kindClose ih =>
    intro room
    exact givesIf_operand_call kind kindOpen (ih room) kindClose
  | function kind kindOpen params kindClose kindOpen' _ kindClose' ih =>
    intro room
    have body := Phrase.RunsOn.block ih room
    exact givesIf_operand_function kind kindOpen params kindClose kindOpen' body kindClose'
  | done stops =>
    intro room within
    rw [Parser.operators, run_loop, stops]
    refine (givesIf_pure _ _).congr ?_ rfl
    simp [Fits, within]
  | @extend t op min left right e ts ts' rest d d' kind goesOn _ tail ihRight ihTail =>
    intro room within
    have round := givesIf_extend left kind (ihRight room)
    have whole := givesIf_bind round fun fits => ihTail room fits.2
    rw [Parser.operators, run_loop, Tokens.current_cons, kind, if_pos goesOn]
    refine whole.congr ?_ rfl
    -- the height of the whole bounds the height of the node made on the way
    have further := tail.height_le
    rw [Expr.height] at further
    simp only [Fits]
    omega
  | @expression min left e ts ts' rest d d' _ tail ihOperand ihTail =>
    intro room
    have further := tail.height_le
    cases room with
    | zero => exact .inr ⟨fun fits => absurd fits.2 (Nat.not_succ_le_zero _), rfl⟩
    | succ room =>
      have inside := givesIf_bind (ihOperand room) fun fits => ihTail room fits.1
      refine (givesIf_nested inside).congr ?_ rfl
      simp only [Fits]
      omega
  | noArguments stops =>
    intro room
    refine (givesIf_collect_nil stops).congr ?_ rfl
    simp [Fits, Expr.highest]
  | @argument _ _ ts _ _ _ _ first _ ihFirst ihLater =>
    intro room
    have goesOn : inParens ts.current.kind = true := by
      have starts := first.startsOperand
      cases kind : ts.current.kind <;> simp_all [Kind.startsOperand, inParens]
    have whole := givesIf_collect_cons goesOn (givesIf_argument (ihFirst room)) (ihLater room)
    refine whole.congr ?_ rfl
    simp only [Fits, Expr.highest]
    omega
  | binding kind kindName kindSign _ ih =>
    intro room
    exact givesIf_statement_binding kind kindName kindSign (ih room)
  | ret kind _ ih =>
    intro room
    exact givesIf_statement_ret kind (ih room)
  | bare value ih =>
    intro room
    exact givesIf_statement_bare value.startsOperand (ih room)
  | finish stops =>
    intro room
    refine (givesIf_collect_nil stops).congr ?_ rfl
    simp [Fits, Stmt.highest]
  | keep goesOn _ _ ihFirst ihLater =>
    intro room
    have whole := givesIf_collect_cons goesOn (givesIf_round (ihFirst room)) (ihLater room)
    refine whole.congr ?_ rfl
    simp only [Fits, Stmt.highest]
    omega
  | drop loses _ _ _ => exact loses.elim

end MonkeySyntax
