import MonkeySyntax.Proofs.Grammar
import MonkeySyntax.Proofs.Reading.WellFormed

/-!
# Sentences are read

`Begins.reads` — the parser reads every sentence of the grammar, whichever way it is derived.

The parser is greedy. It goes on with an expression at every operator and makes a name in front of `(`
a callee, where a derivation may end the expression and start a new one. That does no harm, because
what follows an expression then `Resumes`: it is itself an expression with the same tokens behind it,
so that the greedy choice ends where another derivation does.
-/

namespace MonkeySyntax

open MonkeySyntax.Parser

/-- Whether a token of this kind continues an expression in front of it. -/
def Kind.continues (kind : Kind) : Bool :=
  (BinaryOp.ofKind? kind).isSome || kind = .openParen

/-- Tokens behind an expression that would continue it are an expression themselves, with tokens behind
it that may stand there as well. -/
def Resumes (F : Tokens → Prop) : Prop :=
  ∀ ts, F ts → ts.current.kind.continues = true → Begins .expression F ts

/-- The tokens start with none that would continue an expression. -/
def Stops (F : Tokens → Prop) : Prop :=
  ∀ ts, F ts → ts.current.kind.continues = false

section

variable {F G : Tokens → Prop} {ts : Tokens} {kind : Kind}

/-! ## What stands behind expressions -/

theorem Starts.stops (h : kind.continues = false) : Stops (Starts kind F) := by
  intro ts start
  rw [start.current, h]

theorem Stops.resumes (stops : Stops F) : Resumes F := by
  intro ts h continues
  rw [stops ts h] at continues
  cases continues

theorem Stops.resumes_arguments (stops : Stops F) :
    Resumes (Optionally .comma (Begins .arguments F)) := by
  rintro ts (list | comma) continues
  · rcases begins_arguments_iff.mp list with h | value
    · rw [stops ts h] at continues
      cases continues
    · exact value
  · rw [comma.current] at continues
    cases continues

theorem Stops.resumes_statements (stops : Stops F) :
    Resumes (Optionally .semicolon (Begins .statements F)) := by
  rintro ts (list | semicolon) continues
  · rcases begins_statements_iff.mp list with h | clause
    · rw [stops ts h] at continues
      cases continues
    · rcases begins_clause_iff.mp clause with binding | ret | value
      · rw [binding.current] at continues
        cases continues
      · rw [ret.current] at continues
        cases continues
      · exact value
  · rw [semicolon.current] at continues
    cases continues

/-- The greedy skip of a separator takes it exactly where it is one. -/
theorem Optionally.skipping (h : Optionally kind G ts) (notEof : kind ≠ .eof)
    (never : ∀ r, G r → r.current.kind ≠ kind) : G (ts.skipping kind) := by
  rcases h with absent | ⟨t, r, rfl, here, hr⟩
  · rwa [Tokens.skipping_of_ne (never ts absent)]
  · rwa [Tokens.skipping_cons notEof here]

/-- Behind all of its operators, an expression is at its end. -/
theorem Begins.operators_stop (h : Begins .operators F ts)
    (stops : climbs .lowest ts.current.kind = false) : F ts := by
  rcases begins_operators_iff.mp h with hr | ⟨op, sign⟩
  · exact hr
  · rw [sign.current] at stops
    cases op <;> cases stops

/-- No list of arguments starts with a comma. -/
theorem Begins.arguments_current_ne (h : Begins .arguments F ts)
    (close : ∀ r, F r → r.current.kind = .closeParen) : ts.current.kind ≠ .comma := by
  intro comma
  rcases begins_arguments_iff.mp h with h | value
  · rw [close ts h] at comma
    cases comma
  · have starts := value.startsOperand
    rw [comma] at starts
    cases starts

/-- No list of parameters starts with a comma. -/
theorem Begins.parameters_current_ne (h : Begins .parameters F ts)
    (close : ∀ r, F r → r.current.kind = .closeParen) : ts.current.kind ≠ .comma := by
  intro comma
  rcases begins_parameters_iff.mp h with h | name
  · rw [close ts h] at comma
    cases comma
  · rw [name.current] at comma
    cases comma

/-- No list of statements starts with a semicolon. -/
theorem Begins.statements_current_ne (h : Begins .statements F ts)
    (stop : ∀ r, F r → r.current.kind ≠ .semicolon) : ts.current.kind ≠ .semicolon := by
  intro semicolon
  rcases begins_statements_iff.mp h with h | clause
  · exact stop ts h semicolon
  · rcases begins_clause_iff.mp clause with binding | ret | value
    · rw [binding.current] at semicolon
      cases semicolon
    · rw [ret.current] at semicolon
      cases semicolon
    · have starts := value.startsOperand
      rw [semicolon] at starts
      cases starts

/-! ## One level of nesting -/

/-- Expressions in fewer than `n` tokens are read, up to any operator that does not climb. -/
def ExpressionsRead (n : Nat) : Prop :=
  ∀ ts : Tokens, ts.length < n → ts.Lexical → ∀ F, Resumes F → Begins .expression F ts →
    ∀ min, ∃ e rest d, Reads False (.expression min e) ts rest d ∧ Begins .operators F rest ∧
      climbs min rest.current.kind = false

variable {n : Nat}

theorem ExpressionsRead.whole (hn : ExpressionsRead n) (shorter : ts.length < n)
    (lexical : ts.Lexical) (resumes : Resumes F) (h : Begins .expression F ts) :
    ∃ e rest d, Reads False (.expression .lowest e) ts rest d ∧ F rest := by
  obtain ⟨e, rest, d, reads, behind, stops⟩ := hn ts shorter lexical F resumes h .lowest
  exact ⟨e, rest, d, reads, behind.operators_stop stops⟩

theorem Begins.reads_parameters (close : ∀ r, F r → r.current.kind = .closeParen)
    (h : Begins .parameters F ts) : ∃ names rest, ReadsParameters names ts rest ∧ F rest := by
  induction hm : ts.length using Nat.strongRecOn generalizing ts with
  | ind m ih =>
    rcases begins_parameters_iff.mp h with h | ⟨t, r, rfl, kind, later⟩
    · exact ⟨[], ts, .nil (by rw [close ts h]; rfl), h⟩
    · have behind := later.skipping (by decide) fun r hr => hr.parameters_current_ne close
      have shorter := (Tokens.skipping_suffix .comma r).length_le
      obtain ⟨names, rest, reads, hrest⟩ :=
        ih _ (by rw [← hm]; exact Nat.lt_succ_of_le shorter) behind rfl
      exact ⟨_, rest, .cons kind reads, hrest⟩

theorem ExpressionsRead.arguments (hn : ExpressionsRead n)
    (close : ∀ r, F r → r.current.kind = .closeParen) (shorter : ts.length < n)
    (lexical : ts.Lexical) (h : Begins .arguments F ts) :
    ∃ es rest d, Reads False (.arguments es) ts rest d ∧ F rest := by
  induction hm : ts.length using Nat.strongRecOn generalizing ts with
  | ind m ih =>
    have stops : Stops F := fun r hr => by rw [close r hr]; rfl
    rcases begins_arguments_iff.mp h with h | value
    · exact ⟨[], ts, 0, .noArguments (by rw [close ts h]; rfl), h⟩
    · obtain ⟨e, rest, d, reads, behind⟩ :=
        hn.whole shorter lexical stops.resumes_arguments value
      have later := behind.skipping (by decide) fun r hr => hr.arguments_current_ne close
      have less : (rest.skipping .comma).length < ts.length :=
        Nat.lt_of_le_of_lt (Tokens.skipping_suffix .comma rest).length_le reads.length_lt
      have further := (Tokens.skipping_suffix .comma rest).trans reads.suffix
      obtain ⟨es, rest', d', reads', hrest⟩ :=
        ih _ (hm ▸ less) (Nat.lt_trans less shorter) (lexical.suffix further) later rfl
      exact ⟨e :: es, rest', _, .argument reads reads', hrest⟩

theorem ExpressionsRead.statement (hn : ExpressionsRead n) (shorter : ts.length < n)
    (lexical : ts.Lexical) (resumes : Resumes (Optionally .semicolon F))
    (never : ∀ r, F r → r.current.kind ≠ .semicolon)
    (h : Begins .clause (Optionally .semicolon F) ts) :
    ∃ s rest d, Reads False (.statement s) ts rest d ∧ F rest := by
  rcases begins_clause_iff.mp h with ⟨t, _, rfl, kind, n, _, rfl, kindName, a, r, rfl, kindSign, h⟩ |
    ⟨t, r, rfl, kind, h⟩ | h
  · have less : r.length < (t :: n :: a :: r).length := by simp only [List.length_cons]; omega
    obtain ⟨e, rest, d, reads, behind⟩ :=
      hn.whole (Nat.lt_trans less shorter) lexical.behind.behind.behind resumes h
    exact ⟨_, _, d, .binding kind kindName kindSign reads, behind.skipping (by decide) never⟩
  · have less : r.length < (t :: r).length := Nat.lt_succ_self _
    obtain ⟨e, rest, d, reads, behind⟩ :=
      hn.whole (Nat.lt_trans less shorter) lexical.behind resumes h
    exact ⟨_, _, d, .ret kind reads, behind.skipping (by decide) never⟩
  · obtain ⟨e, rest, d, reads, behind⟩ := hn.whole shorter lexical resumes h
    exact ⟨_, _, d, .bare reads, behind.skipping (by decide) never⟩

theorem ExpressionsRead.block (hn : ExpressionsRead n) (inBody : Bool)
    (ends : ∀ r, F r → inBlock inBody r.current.kind = false) (shorter : ts.length < n)
    (lexical : ts.Lexical) (h : Begins .statements F ts) :
    ∃ ss rest d, Reads False (.block inBody ss) ts rest d ∧ F rest := by
  -- a block ends at `}` or at the end of the input, where no expression goes on
  have stops : Stops F := by
    intro r hr
    have ended := ends r hr
    cases inBody <;> cases kind : r.current.kind <;> simp_all [inBlock, Kind.continues]
    all_goals rfl
  have never : ∀ r, Begins .statements F r → r.current.kind ≠ .semicolon := by
    refine fun r hr => hr.statements_current_ne fun r hr semicolon => ?_
    have ended := ends r hr
    rw [semicolon] at ended
    cases inBody <;> cases ended
  induction hm : ts.length using Nat.strongRecOn generalizing ts with
  | ind m ih =>
    rcases begins_statements_iff.mp h with h | clause
    · exact ⟨[], ts, 0, .finish (ends ts h), h⟩
    · obtain ⟨s, rest, d, reads, later⟩ :=
        hn.statement shorter lexical stops.resumes_statements never clause
      have less := reads.statement_length_lt
      obtain ⟨ss, rest', d', reads', hrest⟩ :=
        ih _ (hm ▸ less) (Nat.lt_trans less shorter) (lexical.suffix reads.suffix) later rfl
      exact ⟨s :: ss, rest', _, .keep (reads.inBlock inBody) reads reads', hrest⟩

/-! ## Operands and chains -/

/-- An expression that starts with `(` starts with an expression in parentheses. -/
theorem Begins.of_openParen (h : Begins .expression F ts) (kind : ts.current.kind = .openParen) :
    Starts .openParen (Begins .expression (Starts .closeParen (Begins .operators F))) ts := by
  rcases begins_operand_iff.mp (begins_expression_iff.mp h) with ⟨op, sign⟩ | primary
  · rw [sign.current] at kind
    cases op <;> cases kind
  · -- of all primaries, only this one starts with `(`
    cases begins_primary_iff.mp primary with
    | grouped h => exact h
    | integer kind' _ _ => cases kind'.symm.trans kind
    | trueWord h => cases h.current.symm.trans kind
    | falseWord h => cases h.current.symm.trans kind
    | name h => cases h.current.symm.trans kind
    | call h => cases h.current.symm.trans kind
    | function h => cases h.current.symm.trans kind

/-- An expression that starts with an operator starts with a sign. -/
theorem Begins.of_operator {op : BinaryOp} (h : Begins .expression F ts)
    (kind : ts.current.kind = op.kind) : Starts op.kind (Begins .expression F) ts := by
  rcases begins_operand_iff.mp (begins_expression_iff.mp h) with ⟨sign, t, r, rfl, -, inner⟩ | primary
  · exact ⟨t, r, rfl, kind, begins_expression_iff.mpr inner⟩
  · cases begins_primary_iff.mp primary with
    | integer kind' _ _ => cases op <;> cases kind'.symm.trans kind
    | trueWord h => cases op <;> cases h.current.symm.trans kind
    | falseWord h => cases op <;> cases h.current.symm.trans kind
    | name h => cases op <;> cases h.current.symm.trans kind
    | grouped h => cases op <;> cases h.current.symm.trans kind
    | call h => cases op <;> cases h.current.symm.trans kind
    | function h => cases op <;> cases h.current.symm.trans kind

/-- Behind an operator in front of which an expression has been read, there is an expression again:
the operator is one of the chain, or else the sign of the expression that follows. -/
theorem Begins.behind_operator {op : BinaryOp} (resumes : Resumes F) (h : Begins .operators F ts)
    (kind : ts.current.kind = op.kind) : Starts op.kind (Begins .expression F) ts := by
  rcases begins_operators_iff.mp h with hr | ⟨op', t, r, rfl, -, inner⟩
  · have continues : ts.current.kind.continues = true := by rw [kind]; cases op <;> rfl
    exact (resumes ts hr continues).of_operator kind
  · exact ⟨t, r, rfl, kind, begins_expression_iff.mpr inner⟩

/-- A `(` behind a name starts an argument list, which an expression in parentheses can stand for. -/
theorem Begins.behind_name (resumes : Resumes F) (h : Begins .operators F ts)
    (kind : ts.current.kind = .openParen) :
    Starts .openParen (Begins .arguments (Starts .closeParen (Begins .operators F))) ts := by
  have hr : F ts := h.operators_stop (by rw [kind]; rfl)
  have continues : ts.current.kind.continues = true := by rw [kind]; rfl
  obtain ⟨o, r, rfl, kind, value⟩ := (resumes ts hr continues).of_openParen kind
  refine ⟨o, r, rfl, kind, begins_arguments_iff.mpr (.inr (value.mono ?_))⟩
  intro r hr
  exact .inl (begins_arguments_iff.mpr (.inl hr))

theorem ExpressionsRead.operand (hn : ExpressionsRead n) (le : ts.length ≤ n)
    (lexical : ts.Lexical) (resumes : Resumes F) (h : Begins .expression F ts) :
    ∃ e rest d, Reads False (.operand e) ts rest d ∧ Begins .operators F rest := by
  have close (G : Tokens → Prop) : ∀ r, Starts .closeParen G r → r.current.kind = .closeParen :=
    fun r hr => hr.current
  have call {t o : Token} {r : Tokens} (kind : t.kind = .identifier) (kindOpen : o.kind = .openParen)
      (args : Begins .arguments (Starts .closeParen (Begins .operators F)) r)
      (same : ts = t :: o :: r) :
      ∃ e rest d, Reads False (.operand e) ts rest d ∧ Begins .operators F rest := by
    subst same
    have less : r.length < n := by simp only [List.length_cons] at le; omega
    obtain ⟨es, _, d, reads, c, rest, rfl, kindClose, behind⟩ :=
      hn.arguments (close _) less lexical.behind.behind args
    exact ⟨_, rest, d, .call kind kindOpen reads kindClose, behind⟩
  rcases begins_operand_iff.mp (begins_expression_iff.mp h) with ⟨op, t, r, rfl, kind, inner⟩ | primary
  · obtain ⟨e, rest, d, reads, behind, -⟩ :=
      hn r (Nat.lt_of_lt_of_le (Nat.lt_succ_self _) le) lexical.behind F resumes
        (begins_expression_iff.mpr inner) .unary
    exact ⟨_, rest, d, .unary kind reads, behind⟩
  · cases begins_primary_iff.mp primary with
    | integer kind small behind =>
      have denotes := integerValue?_eq_some_iff.mpr ⟨lexical.here.isNumeral kind, rfl, small⟩
      exact ⟨_, _, 0, .integer kind denotes, behind⟩
    | trueWord word =>
      obtain ⟨t, r, rfl, kind, behind⟩ := word
      exact ⟨.bool t true, r, 0, .boolean kind, behind⟩
    | falseWord word =>
      obtain ⟨t, r, rfl, kind, behind⟩ := word
      exact ⟨.bool t false, r, 0, .boolean kind, behind⟩
    | name name =>
      obtain ⟨t, r, rfl, kind, behind⟩ := name
      -- the parser takes a name in front of `(` for a callee, also where the derivation does not
      by_cases callee : (Tokens.current r).kind = .openParen
      · obtain ⟨o, r', rfl, kindOpen, args⟩ := behind.behind_name resumes callee
        exact call kind kindOpen args rfl
      · exact ⟨_, r, 0, .name kind callee, behind⟩
    | grouped inParens =>
      obtain ⟨o, r, rfl, kind, inner⟩ := inParens
      obtain ⟨e, _, d, reads, c, rest, rfl, kind', behind⟩ :=
        hn.whole (Nat.lt_of_lt_of_le (Nat.lt_succ_self _) le) lexical.behind
          (Starts.stops rfl).resumes inner
      exact ⟨e, rest, d, .grouped kind reads kind', behind⟩
    | call callee =>
      obtain ⟨t, _, rfl, kind, o, r, rfl, kindOpen, args⟩ := callee
      exact call kind kindOpen args rfl
    | function word =>
      obtain ⟨t, _, rfl, kind, o, r, rfl, kindOpen, params⟩ := word
      obtain ⟨names, _, reads, c, _, rfl, kindClose, o', r', rfl, kindOpen', body⟩ :=
        params.reads_parameters (close _)
      have further := reads.suffix
      have less : r'.length < n := by
        have shorter := further.length_le
        simp only [List.length_cons] at le shorter
        omega
      have lexical' : Tokens.Lexical r' :=
        (lexical.behind.behind.suffix further).behind.behind
      obtain ⟨ss, _, d, reads', c', rest, rfl, kindClose', behind⟩ :=
        hn.block true (fun r hr => by rw [hr.current]; rfl) less lexical' body
      exact ⟨_, rest, d, .function kind kindOpen reads kindClose kindOpen' reads' kindClose',
        behind⟩

theorem ExpressionsRead.tail (hn : ExpressionsRead n) (le : ts.length ≤ n) (lexical : ts.Lexical)
    (resumes : Resumes F) (h : Begins .operators F ts) (min : Precedence) (left : Expr) :
    ∃ e rest d, Reads False (.tail min left e) ts rest d ∧ Begins .operators F rest ∧
      climbs min rest.current.kind = false := by
  -- the induction is on the tokens that are left, of which every operator takes one
  induction hm : ts.length using Nat.strongRecOn generalizing ts left with
  | ind m ih =>
    by_cases goesOn : climbs min ts.current.kind = true
    · obtain ⟨op, sign⟩ := Option.isSome_iff_exists.mp (isSome_ofKind?_of_climbs goesOn)
      have kind := BinaryOp.ofKind?_eq_some.mp sign
      obtain ⟨t, r, rfl, kind', inner⟩ := h.behind_operator resumes kind
      obtain ⟨right, rest, d, reads, behind, -⟩ :=
        hn r (Nat.lt_of_lt_of_le (Nat.lt_succ_self _) le) lexical.behind F resumes inner
          op.kind.precedence
      have less : rest.length < (t :: r).length := Nat.lt_trans reads.length_lt (Nat.lt_succ_self _)
      obtain ⟨e, rest', d', reads', hrest⟩ :=
        ih rest.length (hm ▸ less) (Nat.le_trans (Nat.le_of_lt less) le)
          (lexical.behind.suffix reads.suffix) behind (.binary t left op right) rfl
      rw [Tokens.current_cons, kind'] at goesOn
      exact ⟨e, rest', _, .extend kind' goesOn reads reads', hrest⟩
    · have stops := Bool.eq_false_iff.mpr goesOn
      exact ⟨left, ts, 0, .done stops, h, stops⟩

/-- The parser reads every expression, on any number of tokens. -/
theorem expressionsRead (n : Nat) : ExpressionsRead n := by
  induction n with
  | zero => exact fun ts shorter => absurd shorter (Nat.not_lt_zero _)
  | succ n ih =>
    intro ts shorter lexical F resumes h min
    have le := Nat.le_of_lt_succ shorter
    obtain ⟨left, mid, d, operand, behind⟩ := ih.operand le lexical resumes h
    have further := operand.suffix
    obtain ⟨e, rest, d', tail, hrest⟩ := ih.tail (Nat.le_trans further.length_le le)
      (lexical.suffix further) resumes behind min left
    exact ⟨e, rest, _, .expression operand tail, hrest⟩

/-- The parser reads every program of the grammar to its end, whichever way it is derived. -/
theorem Begins.reads (h : Begins .statements F ts) (lexical : ts.Lexical)
    (ends : ∀ r, F r → r.current.kind = .eof) :
    ∃ ss rest d, Reads False (.block false ss) ts rest d ∧ F rest :=
  (expressionsRead (ts.length + 1)).block false (fun r hr => by rw [ends r hr]; rfl)
    (Nat.lt_succ_self _) lexical h

end

end MonkeySyntax
