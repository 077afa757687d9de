import MonkeySyntax.Proofs.Grammar

/-!
# Sentences

What the sentences of the grammar have in common, whatever they are read from.

* `Satisfiable` — every nonterminal has a sentence, so that what is left of a production can always
  be supplied.
* `Derives.sign`, `Derives.operators_append` and their companions — the productions of an expression
  without precedence and without a split into operands.
* `Derives.exists_lexical` — the grammar looks at kinds, and at the size of integers; so the tokens of
  a sentence can be replaced by ones with a literal that the lexical rules allow.
-/

namespace MonkeySyntax

/-! ## Languages -/

/-- No token is left. -/
def Ends (ts : Tokens) : Prop := ts = []

theorem begins_ends_iff {n : Nonterminal} {ts : Tokens} : Begins n Ends ts ↔ Derives n ts := by
  constructor
  · rintro ⟨c, r, rfl, derives, rfl⟩
    rwa [List.append_nil]
  · intro derives
    exact ⟨ts, [], (List.append_nil ts).symm, derives, rfl⟩

/-- Some tokens satisfy `F`. -/
class Satisfiable (F : Tokens → Prop) : Prop where
  exists_tokens : ∃ ts, F ts

instance : Satisfiable Ends := ⟨[], rfl⟩

/-- A name is an expression, hence an operand, a clause and so on; lists may be empty. -/
instance (n : Nonterminal) : Satisfiable (Derives n) := by
  have primary : Derives .primary [Kind.token .identifier] := .name rfl
  have operand : Derives .operand [Kind.token .identifier] := .primary primary
  have expression : Derives .expression [Kind.token .identifier] := .expression operand .noOperators
  cases n with
  | statements => exact ⟨_, .noStatements⟩
  | statement => exact ⟨_, .unterminated (.bare expression)⟩
  | clause => exact ⟨_, .bare expression⟩
  | expression => exact ⟨_, expression⟩
  | operators => exact ⟨_, .noOperators⟩
  | operand => exact ⟨_, operand⟩
  | primary => exact ⟨_, primary⟩
  | arguments => exact ⟨_, .noArguments⟩
  | parameters => exact ⟨_, .noParameters⟩

section

variable {F : Tokens → Prop} [satisfiable : Satisfiable F]

instance (kind : Kind) : Satisfiable (Starts kind F) :=
  let ⟨ts, h⟩ := satisfiable.exists_tokens
  ⟨kind.token :: ts, kind.token, ts, rfl, rfl, h⟩

instance (kind : Kind) : Satisfiable (Optionally kind F) :=
  let ⟨ts, h⟩ := satisfiable.exists_tokens
  ⟨ts, .inl h⟩

instance (n : Nonterminal) : Satisfiable (Begins n F) :=
  let ⟨c, derives⟩ := (inferInstance : Satisfiable (Derives n)).exists_tokens
  let ⟨ts, h⟩ := satisfiable.exists_tokens
  ⟨c ++ ts, c, ts, rfl, derives, h⟩

end

/-! ## Expressions without a split into operands -/

section

variable {t : Token} {c cs : List Token}

theorem BeginsPrimary.derives (h : BeginsPrimary Ends c) : Derives .expression c :=
  begins_ends_iff.mp (begins_expression_iff.mpr
    (h.operand.mono fun _ ends => begins_operators_iff.mpr (.inl ends)))

/-- An expression with further operators behind it is an expression. -/
theorem Derives.operators_append (h : Derives .expression c) (later : Derives .operators cs) :
    Derives .expression (c ++ cs) := by
  have whole : Begins .expression (Begins .operators Ends) (c ++ cs) :=
    ⟨c, cs, rfl, h, begins_ends_iff.mpr later⟩
  exact begins_ends_iff.mp (begins_expression_iff.mpr
    ((begins_expression_iff.mp whole).mono fun _ chain => chain.operators_append))

/-- Operators with further operators behind them are operators. -/
theorem Derives.operators_append_operators (h : Derives .operators c)
    (later : Derives .operators cs) : Derives .operators (c ++ cs) := by
  have whole : Begins .operators (Begins .operators Ends) (c ++ cs) :=
    ⟨c, cs, rfl, h, begins_ends_iff.mpr later⟩
  exact begins_ends_iff.mp whole.operators_append

/-- A sign on the first operand of an expression. -/
theorem Derives.sign_expression {op : UnaryOp} (kind : t.kind = op.kind)
    (h : Derives .expression c) : Derives .expression (t :: c) := by
  have inner := begins_expression_iff.mp (begins_ends_iff.mpr h)
  exact begins_ends_iff.mp (begins_expression_iff.mpr
    (begins_operand_iff.mpr (.inl ⟨op, t, c, rfl, kind, inner⟩)))

/-- An operator and an expression behind it are operators with their operands. -/
theorem Derives.operator_expression {op : BinaryOp} (kind : t.kind = op.kind)
    (h : Derives .expression c) : Derives .operators (t :: c) := by
  have inner := begins_expression_iff.mp (begins_ends_iff.mpr h)
  exact begins_ends_iff.mp (begins_operators_iff.mpr (.inr ⟨op, t, c, rfl, kind, inner⟩))

/-! ## Lists -/

theorem Begins.cons_statements (h : Begins .clause (Optionally .semicolon Ends) c)
    (later : Derives .statements cs) : Derives .statements (c ++ cs) := by
  obtain ⟨c, r, rfl, clause, rfl | ⟨t, _, rfl, kind, rfl⟩⟩ := h
  · rw [List.append_nil]
    exact .statements (.unterminated clause) later
  · exact .statements (.terminated clause kind) later

theorem Begins.cons_arguments (h : Begins .expression (Optionally .comma Ends) c)
    (later : Derives .arguments cs) : Derives .arguments (c ++ cs) := by
  obtain ⟨c, r, rfl, value, rfl | ⟨t, _, rfl, kind, rfl⟩⟩ := h
  · rw [List.append_nil]
    exact .argument value later
  · rw [List.append_assoc]
    exact .argumentComma value kind later

theorem Starts.cons_parameters (h : Starts .identifier (Optionally .comma Ends) c)
    (later : Derives .parameters cs) : Derives .parameters (c ++ cs) := by
  obtain ⟨n, r, rfl, kind, rfl | ⟨t, _, rfl, kind', rfl⟩⟩ := h
  · exact .parameter kind later
  · exact .parameterComma kind kind' later

end

/-! ## Lexical form -/

/-- Some token of the kind, in lexical form. -/
def Kind.sample : Kind → Token
  | .identifier => ⟨.identifier, "x"⟩
  | .integer => ⟨.integer, "0"⟩
  | .illegal => ⟨.illegal, "@"⟩
  | kind => kind.token

theorem Kind.kind_sample (kind : Kind) : kind.sample.kind = kind := by
  cases kind <;> rfl

theorem Kind.lexical_sample (kind : Kind) : kind.sample.Lexical := by
  cases kind with
  | identifier => exact (by decide : IsName "x")
  | integer => exact (by decide : IsNumeral "0")
  | illegal => exact ⟨'@', by decide⟩
  | _ => rfl

/-- The grammar looks at kinds, and at the size of integers. -/
theorem Derives.map {f : Token → Token} (kinds : ∀ t, (f t).kind = t.kind)
    (small : ∀ t, t.kind = .integer → decimal t.literal ≤ maxInteger →
      decimal (f t).literal ≤ maxInteger)
    {n : Nonterminal} {ts : List Token} (h : Derives n ts) : Derives n (ts.map f) := by
  have kind {t : Token} {k : Kind} (here : t.kind = k) : (f t).kind = k := (kinds t).trans here
  induction h with
  | noStatements => exact .noStatements
  | statements _ _ first later => simpa using first.statements later
  | unterminated _ ih => exact .unterminated ih
  | terminated _ h ih => simpa using ih.terminated (kind h)
  | binding h hn ha _ ih => exact .binding (kind h) (kind hn) (kind ha) ih
  | ret h _ ih => exact .ret (kind h) ih
  | bare _ ih => exact .bare ih
  | expression _ _ first later => simpa using first.expression later
  | noOperators => exact .noOperators
  | operators h _ _ first later => simpa using Derives.operators (kind h) first later
  | sign h _ ih => exact .sign (kind h) ih
  | primary _ ih => exact .primary ih
  | @integer t h value => exact .integer (kind h) (small t h value)
  | trueWord h => exact .trueWord (kind h)
  | falseWord h => exact .falseWord (kind h)
  | name h => exact .name (kind h)
  | grouped h _ hc ih => simpa using Derives.grouped (kind h) ih (kind hc)
  | call h ho _ hc ih => simpa using Derives.call (kind h) (kind ho) ih (kind hc)
  | function h ho _ hc ho' _ hc' params body =>
    simpa using Derives.function (kind h) (kind ho) params (kind hc) (kind ho') body (kind hc')
  | noArguments => exact .noArguments
  | argument _ _ first later => simpa using first.argument later
  | argumentComma _ h _ first later => simpa using first.argumentComma (kind h) later
  | noParameters => exact .noParameters
  | parameter h _ ih => exact .parameter (kind h) ih
  | parameterComma h hc _ ih => exact .parameterComma (kind h) (kind hc) ih

/-- What completes a sentence may be taken to have lexical form. -/
theorem Derives.exists_lexical {n : Nonterminal} {before later : Tokens}
    (h : Derives n (before ++ later)) (lexical : before.Lexical) :
    ∃ later' : Tokens, later'.Lexical ∧ Derives n (before ++ later') := by
  -- the tokens that are given stay as they are, all others are replaced
  let f (t : Token) : Token := if t ∈ before then t else t.kind.sample
  have kinds (t : Token) : (f t).kind = t.kind := by
    dsimp only [f]
    split
    · rfl
    · exact t.kind.kind_sample
  have small (t : Token) (kind : t.kind = .integer) (value : decimal t.literal ≤ maxInteger) :
      decimal (f t).literal ≤ maxInteger := by
    dsimp only [f]
    split
    · exact value
    · rw [kind]
      decide
  have unchanged : before.map f = before := by
    have same : ∀ t ∈ before, f t = t := fun t ht => if_pos ht
    rw [List.map_congr_left same, List.map_id']
  refine ⟨later.map f, fun t ht => ?_, ?_⟩
  · obtain ⟨t, -, rfl⟩ := List.mem_map.mp ht
    dsimp only [f]
    split
    · exact lexical t ‹_›
    · exact t.kind.lexical_sample
  · have mapped := h.map kinds small
    rwa [List.map_append, unchanged] at mapped

end MonkeySyntax
