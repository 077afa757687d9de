import MonkeySyntax.Proofs.Reading

/-!
# From runs to readings

`expression_explained`, `block_reads` — whatever the parser gives is what it has read, within the height
limit. Statements are left out only where errors are recorded.
-/

namespace MonkeySyntax

open MonkeySyntax.Parser

/-- What the parser has given is an expression with its height, within the limit, and reads as the
phrase `x` makes of it. -/
def ReadsMeasured (lossy : Prop) (x : Expr → Phrase) (m : Measured Expr) (ts rest : Tokens)
    (d : Nat) : Prop :=
  ∃ e : Expr, m = e.measured ∧ e.height ≤ maxHeight ∧ Reads lossy (x e) ts rest d

/-- Whatever the rule gives is an expression that it has read. -/
def Explained (lossy : Prop) (expr : Precedence → Rule (Measured Expr)) : Prop :=
  ∀ ⦃min m ts rest d⦄, (expr min).Gives lossy ts m rest d →
    ReadsMeasured lossy (.expression min) m ts rest d

section

variable {lossy : Prop} {expr : Precedence → Rule (Measured Expr)} {ts rest : Tokens}
  {m : Measured Expr} {d : Nat}

theorem identifier_gives {α : Type} {a : α} {next : Ident → Parser α}
    (h : (identifier >>= next).Gives lossy ts a rest d) :
    ∃ t ts', ts = t :: ts' ∧ t.kind = .identifier ∧
      (next (Ident.ofToken t)).Gives lossy ts' a rest d := by
  obtain ⟨name, mid, d₁, d₂, first, later, rfl⟩ := h.bind
  obtain ⟨t, ts', rfl, kind, named⟩ := first.expect_bind (by decide)
  obtain ⟨rfl, rfl, rfl⟩ := named.pure
  exact ⟨t, ts', rfl, kind, by rwa [Nat.zero_max]⟩

theorem parameters_read {names : List Ident}
    (h : (collect inParens parameter (consumes_parameter.progresses _)).Gives lossy ts names rest
      d) : ReadsParameters names ts rest ∧ d = 0 := by
  refine Gives.collect_induction (motive := fun ts names rest d =>
    ReadsParameters names ts rest ∧ d = 0) ?_ ?_ h
  · exact fun ts stops => ⟨.nil stops, rfl⟩
  · rintro name names ts mid rest d₁ d₂ - first ⟨later, rfl⟩
    obtain ⟨t, ts', rfl, kind, h⟩ := identifier_gives first
    obtain ⟨rfl, rfl, rfl⟩ := h.skip_bind.pure
    exact ⟨.cons kind later, rfl⟩

theorem booleanExpression_reads {value : Bool}
    (h : (booleanExpression value).Gives lossy ts m rest d) :
    ReadsMeasured lossy .operand m ts rest d := by
  obtain ⟨t, ts', rfl, kind, h⟩ := h.expect_bind (by cases value <;> decide)
  obtain ⟨rfl, rfl, rfl⟩ := h.pure
  exact ⟨.bool t value, rfl, Nat.zero_le _, .boolean kind⟩

theorem integerExpression_reads (h : integerExpression.Gives lossy ts m rest d) :
    ReadsMeasured lossy .operand m ts rest d := by
  have h := h.current_bind
  split at h
  · exact h.fail.elim
  · rename_i value hvalue
    obtain ⟨t, ts', rfl, kind, h⟩ := h.expect_bind (by decide)
    obtain ⟨rfl, rfl, rfl⟩ := h.pure
    exact ⟨.int t value, rfl, Nat.zero_le _, .integer kind hvalue⟩

theorem identifierExpression_reads (behind : ts.following.kind ≠ .openParen)
    (h : identifierExpression.Gives lossy ts m rest d) :
    ReadsMeasured lossy .operand m ts rest d := by
  obtain ⟨t, ts', rfl, kind, h⟩ := identifier_gives h
  obtain ⟨rfl, rfl, rfl⟩ := h.pure
  rw [Tokens.following_cons (by rw [kind]; decide)] at behind
  exact ⟨.ident (Ident.ofToken t), rfl, Nat.zero_le _, .name kind behind⟩

variable (explained : Explained lossy expr)
include explained

theorem unaryExpression_reads {op : UnaryOp}
    (h : (unaryExpression expr op).Gives lossy ts m rest d) :
    ReadsMeasured lossy .operand m ts rest d := by
  obtain ⟨t, ts', rfl, kind, h⟩ := h.expect_bind op.kind_ne_eof
  obtain ⟨_, mid, d₁, d₂, inner, h, rfl⟩ := h.bind
  obtain ⟨e, rfl, -, reads⟩ := explained inner
  obtain ⟨within, h⟩ := h.above_bind
  obtain ⟨rfl, rfl, rfl⟩ := h.pure
  rw [Nat.max_zero]
  exact ⟨.unary t op e, rfl, within, .unary kind reads⟩

theorem groupedExpression_reads (h : (groupedExpression expr).Gives lossy ts m rest d) :
    ReadsMeasured lossy .operand m ts rest d := by
  obtain ⟨o, ts', rfl, kind, h⟩ := h.expect_bind (by decide)
  obtain ⟨_, mid, d₁, d₂, inner, h, rfl⟩ := h.bind
  obtain ⟨e, rfl, within, reads⟩ := explained inner
  obtain ⟨c, rest', rfl, kind', h⟩ := h.expect_bind (by decide)
  obtain ⟨rfl, rfl, rfl⟩ := h.pure
  rw [Nat.max_zero]
  exact ⟨e, rfl, within, .grouped kind reads kind'⟩

theorem arguments_read {ms : List (Measured Expr)}
    (h : (Parser.arguments expr).Gives lossy ts ms rest d) :
    ∃ es : List Expr, ms = es.map Expr.measured ∧ Expr.highest es ≤ maxHeight ∧
      Reads lossy (.arguments es) ts rest d := by
  refine Gives.collect_induction (motive := fun ts ms rest d => ∃ es : List Expr,
    ms = es.map Expr.measured ∧ Expr.highest es ≤ maxHeight ∧
      Reads lossy (.arguments es) ts rest d) ?_ ?_ h
  · exact fun ts stops => ⟨[], rfl, Nat.zero_le _, .noArguments stops⟩
  · rintro _ _ ts mid rest d₁ d₂ - first ⟨es, rfl, within, later⟩
    obtain ⟨_, mid', d₁, d₁', inner, h, rfl⟩ := first.bind
    obtain ⟨e, rfl, within', reads⟩ := explained inner
    obtain ⟨rfl, rfl, rfl⟩ := h.skip_bind.pure
    rw [Nat.max_zero]
    exact ⟨e :: es, rfl, Nat.max_le.mpr ⟨within', within⟩, .argument reads later⟩

theorem callExpression_reads (h : (callExpression expr).Gives lossy ts m rest d) :
    ReadsMeasured lossy .operand m ts rest d := by
  obtain ⟨t, ts', rfl, kind, h⟩ := identifier_gives h
  obtain ⟨o, ts'', rfl, kindOpen, h⟩ := h.expect_bind (by decide)
  obtain ⟨_, mid, d₁, d₂, inner, h, rfl⟩ := h.bind
  obtain ⟨args, rfl, -, reads⟩ := arguments_read explained inner
  obtain ⟨c, rest', rfl, kindClose, h⟩ := h.expect_bind (by decide)
  obtain ⟨within, h⟩ := h.above_bind
  obtain ⟨rfl, rfl, rfl⟩ := h.pure
  rw [Expr.highest_measured] at within ⊢
  rw [Expr.values_measured, Nat.max_zero]
  exact ⟨.call (Ident.ofToken t) args, rfl, within, .call kind kindOpen reads kindClose⟩

theorem operators_read {min : Precedence} {left : Expr} (within : left.height ≤ maxHeight)
    (h : (Parser.operators expr min left.measured).Gives lossy ts m rest d) :
    ReadsMeasured lossy (.tail min left) m ts rest d := by
  refine Gives.loop_induction (motive := fun l ts m rest d => ∀ left : Expr, l = left.measured →
    left.height ≤ maxHeight → ReadsMeasured lossy (.tail min left) m ts rest d) ?_ ?_ h left rfl
      within
  · rintro _ ts stops left rfl within
    exact ⟨left, rfl, within, .done stops⟩
  · rintro _ _ m ts mid rest d₁ d₂ goesOn first ih left rfl -
    have h := first.current_bind
    split at h
    · rename_i op hop
      obtain ⟨t, ts', rfl, kind, h⟩ := h.expect_bind op.kind_ne_eof
      obtain ⟨_, mid', d₁, d₁', inner, h, rfl⟩ := h.bind
      obtain ⟨right, rfl, -, reads⟩ := explained inner
      obtain ⟨within, h⟩ := h.above_bind
      obtain ⟨rfl, rfl, rfl⟩ := h.pure
      obtain ⟨e, rfl, within', later⟩ := ih (.binary t left op right) rfl within
      rw [Nat.max_zero]
      rw [Tokens.current_cons, kind] at goesOn
      exact ⟨e, rfl, within', .extend kind goesOn reads later⟩
    · exact h.fail.elim

/-! ## Statements and blocks -/

theorem statement_reads {m : Measured Stmt} (h : (Parser.statement expr).Gives lossy ts m rest d) :
    ∃ s : Stmt, m = s.measured ∧ s.height ≤ maxHeight ∧ Reads lossy (.statement s) ts rest d := by
  have h := h.current_bind
  split at h
  · obtain ⟨t, mid, rfl, kind, h⟩ := h.expect_bind (by decide)
    obtain ⟨n, mid, rfl, kindName, h⟩ := identifier_gives h
    obtain ⟨a, mid, rfl, kindSign, h⟩ := h.expect_bind (by decide)
    obtain ⟨_, behind, d₁, d₂, inner, h, rfl⟩ := h.bind
    obtain ⟨e, rfl, within, reads⟩ := explained inner
    obtain ⟨rfl, rfl, rfl⟩ := h.skip_bind.pure
    rw [Nat.max_zero]
    exact ⟨.binding t (Ident.ofToken n) e, rfl, within, .binding kind kindName kindSign reads⟩
  · obtain ⟨t, mid, rfl, kind, h⟩ := h.expect_bind (by decide)
    obtain ⟨_, behind, d₁, d₂, inner, h, rfl⟩ := h.bind
    obtain ⟨e, rfl, within, reads⟩ := explained inner
    obtain ⟨rfl, rfl, rfl⟩ := h.skip_bind.pure
    rw [Nat.max_zero]
    exact ⟨.ret t e, rfl, within, .ret kind reads⟩
  · have h := h.current_bind
    obtain ⟨_, behind, d₁, d₂, inner, h, rfl⟩ := h.bind
    obtain ⟨e, rfl, within, reads⟩ := explained inner
    obtain ⟨rfl, rfl, rfl⟩ := h.skip_bind.pure
    rw [Nat.max_zero]
    exact ⟨.expr ts.current e, rfl, within, .bare reads⟩

/-- The rounds of a block that kept a statement are what is read of it. -/
theorem rounds_read {inBody : Bool} {rounds : List (Option (Measured Stmt))}
    (h : (Parser.rounds expr inBody).Gives lossy ts rounds rest d) :
    ∃ ss : List Stmt, rounds.filterMap id = ss.map Stmt.measured ∧ Stmt.highest ss ≤ maxHeight ∧
      Reads lossy (.block inBody ss) ts rest d := by
  refine Gives.collect_induction (motive := fun ts rounds rest d => ∃ ss : List Stmt,
    rounds.filterMap id = ss.map Stmt.measured ∧ Stmt.highest ss ≤ maxHeight ∧
      Reads lossy (.block inBody ss) ts rest d) ?_ ?_ h
  · exact fun ts stops => ⟨[], rfl, Nat.zero_le _, .finish stops⟩
  · rintro _ rounds ts mid rest d₁ d₂ goesOn first ⟨ss, kept, within, later⟩
    rcases first.recovering with ⟨_, rfl, given⟩ | ⟨rfl, loses, further⟩
    · obtain ⟨s, rfl, within', reads⟩ := statement_reads explained given
      refine ⟨s :: ss, ?_, Nat.max_le.mpr ⟨within', within⟩, .keep goesOn reads later⟩
      rw [List.filterMap_cons, kept]
      rfl
    · exact ⟨ss, kept, within, .drop loses further later⟩

theorem block_reads {inBody : Bool} {m : Measured (List Stmt)}
    (h : (Parser.block expr inBody).Gives lossy ts m rest d) :
    ∃ ss : List Stmt, m = ⟨ss, Stmt.highest ss⟩ ∧ Stmt.highest ss ≤ maxHeight ∧
      Reads lossy (.block inBody ss) ts rest d := by
  obtain ⟨rounds, given, rfl⟩ := h.map
  obtain ⟨ss, kept, within, reads⟩ := rounds_read explained given
  refine ⟨ss, ?_, within, reads⟩
  rw [kept, Stmt.values_measured, Stmt.highest_measured]

/-! ## Functions and whole expressions -/

theorem fnExpression_reads (h : (fnExpression expr).Gives lossy ts m rest d) :
    ReadsMeasured lossy .operand m ts rest d := by
  obtain ⟨t, mid, rfl, kind, h⟩ := h.expect_bind (by decide)
  obtain ⟨o, mid, rfl, kindOpen, h⟩ := h.expect_bind (by decide)
  obtain ⟨params, behind, d₁, d₂, names, later, rfl⟩ := h.bind
  obtain ⟨readsParams, rfl⟩ := parameters_read names
  obtain ⟨c, mid, rfl, kindClose, h⟩ := later.expect_bind (by decide)
  obtain ⟨o', mid, rfl, kindOpen', h⟩ := h.expect_bind (by decide)
  obtain ⟨_, behind, d₁, d₂, inner, h, rfl⟩ := h.bind
  obtain ⟨body, rfl, -, reads⟩ := block_reads explained inner
  obtain ⟨c', mid, rfl, kindClose', h⟩ := h.expect_bind (by decide)
  obtain ⟨within, h⟩ := h.above_bind
  obtain ⟨rfl, rfl, rfl⟩ := h.pure
  rw [Nat.max_zero, Nat.zero_max]
  exact ⟨.fn t params body, rfl, within,
    .function kind kindOpen readsParams kindClose kindOpen' reads kindClose'⟩

theorem operand_reads (h : (Parser.operand expr).Gives lossy ts m rest d) :
    ReadsMeasured lossy .operand m ts rest d := by
  have h := h.current_bind
  split at h
  · exact unaryExpression_reads explained h
  · split at h
    · exact integerExpression_reads h
    · exact booleanExpression_reads h
    · exact booleanExpression_reads h
    · exact groupedExpression_reads explained h
    · have h := h.following_bind
      split at h
      · exact callExpression_reads explained h
      · rename_i behind
        exact identifierExpression_reads behind h
    · exact fnExpression_reads explained h
    · exact h.fail.elim
    · exact h.fail.elim

omit explained in
/-- Whatever the parser gives for an expression is what it has read, within the height limit. -/
theorem expression_explained (room : Nat) : Explained lossy (Parser.expression room) := by
  induction room with
  | zero => exact fun _ _ _ _ _ h => h.fail.elim
  | succ room ih =>
    intro min m ts rest d h
    obtain ⟨d', inside, rfl⟩ := h.nested
    obtain ⟨_, mid, d₁, d₂, first, later, rfl⟩ := inside.bind
    obtain ⟨left, rfl, within, operand⟩ := operand_reads ih first
    obtain ⟨e, rfl, within', tail⟩ := operators_read ih within later
    exact ⟨e, rfl, within', .expression operand tail⟩

end

end MonkeySyntax
