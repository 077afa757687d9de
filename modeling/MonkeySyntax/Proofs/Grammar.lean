import MonkeySyntax.Parser.Outcome
import MonkeySyntax.Proofs.Literal
import MonkeySyntax.Tree

/-!
# The grammar

The language of token lists, said without the parser and without precedence:

    statements = statement*
    statement  = clause [ `;` ]
    clause     = `let` identifier `=` expression | `return` expression | expression
    expression = operand ( binary-operator operand )*
    operand    = ( `-` | `!` )* primary
    primary    = integer | `true` | `false` | identifier | `(` expression `)`
               | identifier `(` ( expression [ `,` ] )* `)`
               | `fn` `(` ( identifier [ `,` ] )* `)` `{` statements `}`

It is ambiguous: where a `;` or a `,` may be missing, a `-` or a `(` can go on with the expression
in front of it or start a new one.

`Derives n ts` says that `ts` is a sentence of `n`. `Begins n F ts` says that `ts` begins with one,
behind which the remaining tokens satisfy `F`; the `begins_…_iff` lemmas are the productions in this
form, in which sequences nest and nothing needs to be appended.
-/

namespace MonkeySyntax

/-- What the grammar has productions for. -/
inductive Nonterminal where
  | statements
  | statement
  | clause
  | expression
  | operators
  | operand
  | primary
  | arguments
  | parameters

/-- The tokens are a sentence of the nonterminal. -/
inductive Derives : Nonterminal → List Token → Prop
  | noStatements : Derives .statements []
  | statements {c cs : List Token} :
    Derives .statement c → Derives .statements cs → Derives .statements (c ++ cs)
  | unterminated {c : List Token} : Derives .clause c → Derives .statement c
  | terminated {c : List Token} {t : Token} :
    Derives .clause c → t.kind = .semicolon → Derives .statement (c ++ [t])
  | binding {t n a : Token} {c : List Token} :
    t.kind = .letWord → n.kind = .identifier → a.kind = .assignment → Derives .expression c →
    Derives .clause (t :: n :: a :: c)
  | ret {t : Token} {c : List Token} :
    t.kind = .returnWord → Derives .expression c → Derives .clause (t :: c)
  | bare {c : List Token} : Derives .expression c → Derives .clause c
  | expression {c cs : List Token} :
    Derives .operand c → Derives .operators cs → Derives .expression (c ++ cs)
  | noOperators : Derives .operators []
  | operators {t : Token} {op : BinaryOp} {c cs : List Token} :
    t.kind = op.kind → Derives .operand c → Derives .operators cs →
    Derives .operators (t :: c ++ cs)
  | sign {t : Token} {op : UnaryOp} {c : List Token} :
    t.kind = op.kind → Derives .operand c → Derives .operand (t :: c)
  | primary {c : List Token} : Derives .primary c → Derives .operand c
  | integer {t : Token} :
    t.kind = .integer → decimal t.literal ≤ maxInteger → Derives .primary [t]
  | trueWord {t : Token} : t.kind = .trueWord → Derives .primary [t]
  | falseWord {t : Token} : t.kind = .falseWord → Derives .primary [t]
  | name {t : Token} : t.kind = .identifier → Derives .primary [t]
  | grouped {o c : Token} {inner : List Token} :
    o.kind = .openParen → Derives .expression inner → c.kind = .closeParen →
    Derives .primary (o :: inner ++ [c])
  | call {t o c : Token} {args : List Token} :
    t.kind = .identifier → o.kind = .openParen → Derives .arguments args → c.kind = .closeParen →
    Derives .primary (t :: o :: args ++ [c])
  | function {t o c o' c' : Token} {params body : List Token} :
    t.kind = .fnWord → o.kind = .openParen → Derives .parameters params → c.kind = .closeParen →
    o'.kind = .openBrace → Derives .statements body → c'.kind = .closeBrace →
    Derives .primary (t :: o :: params ++ c :: o' :: body ++ [c'])
  | noArguments : Derives .arguments []
  | argument {c cs : List Token} :
    Derives .expression c → Derives .arguments cs → Derives .arguments (c ++ cs)
  | argumentComma {c cs : List Token} {t : Token} :
    Derives .expression c → t.kind = .comma → Derives .arguments cs →
    Derives .arguments (c ++ t :: cs)
  | noParameters : Derives .parameters []
  | parameter {n : Token} {cs : List Token} :
    n.kind = .identifier → Derives .parameters cs → Derives .parameters (n :: cs)
  | parameterComma {n t : Token} {cs : List Token} :
    n.kind = .identifier → t.kind = .comma → Derives .parameters cs →
    Derives .parameters (n :: t :: cs)

/-- The end of the input is in no sentence. -/
theorem Derives.kind_ne_eof {n : Nonterminal} {ts : List Token} (h : Derives n ts) :
    ∀ t ∈ ts, t.kind ≠ .eof := by
  induction h with
  | @operators t op c cs kind _ _ ihFirst ihLater =>
    have sign : t.kind ≠ .eof := by rw [kind]; exact op.kind_ne_eof
    simp_all [or_imp]
  | @sign t op c kind _ ih =>
    have sign : t.kind ≠ .eof := by rw [kind]; exact op.kind_ne_eof
    simp_all
  | _ => simp_all [or_imp]

/-! ## Sentences in front of other tokens -/

/-- The tokens begin with a sentence of the nonterminal, and those behind it satisfy `F`. -/
def Begins (n : Nonterminal) (F : Tokens → Prop) (ts : Tokens) : Prop :=
  ∃ c r, ts = c ++ r ∧ Derives n c ∧ F r

/-- The tokens begin with one of the given kind, and those behind it satisfy `F`. -/
def Starts (kind : Kind) (F : Tokens → Prop) (ts : Tokens) : Prop :=
  ∃ t r, ts = t :: r ∧ t.kind = kind ∧ F r

/-- The tokens satisfy `F`, perhaps behind one of the given kind. -/
def Optionally (kind : Kind) (F : Tokens → Prop) (ts : Tokens) : Prop :=
  F ts ∨ Starts kind F ts

/-- The productions of a primary, in front of tokens that satisfy `F`. -/
inductive BeginsPrimary (F : Tokens → Prop) : Tokens → Prop
  | integer {t : Token} {r : Tokens} :
    t.kind = .integer → decimal t.literal ≤ maxInteger → F r → BeginsPrimary F (t :: r)
  | trueWord {ts : Tokens} : Starts .trueWord F ts → BeginsPrimary F ts
  | falseWord {ts : Tokens} : Starts .falseWord F ts → BeginsPrimary F ts
  | name {ts : Tokens} : Starts .identifier F ts → BeginsPrimary F ts
  | grouped {ts : Tokens} :
    Starts .openParen (Begins .expression (Starts .closeParen F)) ts → BeginsPrimary F ts
  | call {ts : Tokens} :
    Starts .identifier (Starts .openParen (Begins .arguments (Starts .closeParen F))) ts →
    BeginsPrimary F ts
  | function {ts : Tokens} :
    Starts .fnWord (Starts .openParen (Begins .parameters (Starts .closeParen
      (Starts .openBrace (Begins .statements (Starts .closeBrace F)))))) ts → BeginsPrimary F ts

section

variable {F : Tokens → Prop} {ts : Tokens} {kind : Kind}

theorem begins_statements_iff : Begins .statements F ts ↔
    F ts ∨ Begins .clause (Optionally .semicolon (Begins .statements F)) ts := by
  constructor
  · rintro ⟨_, r, rfl, derives, hr⟩
    cases derives with
    | noStatements => exact .inl hr
    | @statements c cs first later =>
      right
      cases first with
      | unterminated clause =>
        exact ⟨c, cs ++ r, List.append_assoc _ _ _, clause, .inl ⟨cs, r, rfl, later, hr⟩⟩
      | @terminated c t clause kind =>
        exact ⟨c, t :: (cs ++ r), by simp, clause,
          .inr ⟨t, cs ++ r, rfl, kind, cs, r, rfl, later, hr⟩⟩
  · rintro (hr | ⟨c, r, rfl, clause, hr⟩)
    · exact ⟨[], ts, rfl, .noStatements, hr⟩
    · rcases hr with ⟨cs, r, rfl, later, hr⟩ | ⟨t, _, rfl, kind, cs, r, rfl, later, hr⟩
      · exact ⟨c ++ cs, r, (List.append_assoc _ _ _).symm,
          .statements (.unterminated clause) later, hr⟩
      · exact ⟨c ++ [t] ++ cs, r, by simp, .statements (.terminated clause kind) later, hr⟩

theorem begins_clause_iff : Begins .clause F ts ↔
    Starts .letWord (Starts .identifier (Starts .assignment (Begins .expression F))) ts ∨
    Starts .returnWord (Begins .expression F) ts ∨ Begins .expression F ts := by
  constructor
  · rintro ⟨_, r, rfl, derives, hr⟩
    cases derives with
    | @binding t n a c kind kindName kindSign value =>
      exact .inl ⟨t, _, rfl, kind, n, _, rfl, kindName, a, _, rfl, kindSign, c, r, rfl, value, hr⟩
    | @ret t c kind value => exact .inr (.inl ⟨t, _, rfl, kind, c, r, rfl, value, hr⟩)
    | bare value => exact .inr (.inr ⟨_, r, rfl, value, hr⟩)
  · rintro (⟨t, _, rfl, kind, n, _, rfl, kindName, a, _, rfl, kindSign, c, r, rfl, value, hr⟩ |
      ⟨t, _, rfl, kind, c, r, rfl, value, hr⟩ | ⟨c, r, rfl, value, hr⟩)
    · exact ⟨t :: n :: a :: c, r, rfl, .binding kind kindName kindSign value, hr⟩
    · exact ⟨t :: c, r, rfl, .ret kind value, hr⟩
    · exact ⟨c, r, rfl, .bare value, hr⟩

theorem begins_expression_iff :
    Begins .expression F ts ↔ Begins .operand (Begins .operators F) ts := by
  constructor
  · rintro ⟨_, r, rfl, derives, hr⟩
    cases derives with
    | @expression c cs first later =>
      exact ⟨c, cs ++ r, List.append_assoc _ _ _, first, cs, r, rfl, later, hr⟩
  · rintro ⟨c, _, rfl, first, cs, r, rfl, later, hr⟩
    exact ⟨c ++ cs, r, (List.append_assoc _ _ _).symm, .expression first later, hr⟩

theorem begins_operators_iff : Begins .operators F ts ↔
    F ts ∨ ∃ op : BinaryOp, Starts op.kind (Begins .operand (Begins .operators F)) ts := by
  constructor
  · rintro ⟨_, r, rfl, derives, hr⟩
    cases derives with
    | noOperators => exact .inl hr
    | @operators t op c cs kind first later =>
      exact .inr ⟨op, t, c ++ (cs ++ r), by simp, kind, c, cs ++ r, rfl, first, cs, r, rfl, later,
        hr⟩
  · rintro (hr | ⟨op, t, _, rfl, kind, c, _, rfl, first, cs, r, rfl, later, hr⟩)
    · exact ⟨[], ts, rfl, .noOperators, hr⟩
    · exact ⟨t :: c ++ cs, r, by simp, .operators kind first later, hr⟩

theorem begins_operand_iff : Begins .operand F ts ↔
    (∃ op : UnaryOp, Starts op.kind (Begins .operand F) ts) ∨ Begins .primary F ts := by
  constructor
  · rintro ⟨_, r, rfl, derives, hr⟩
    cases derives with
    | @sign t op c kind inner => exact .inl ⟨op, t, c ++ r, rfl, kind, c, r, rfl, inner, hr⟩
    | primary inner => exact .inr ⟨_, r, rfl, inner, hr⟩
  · rintro (⟨op, t, _, rfl, kind, c, r, rfl, inner, hr⟩ | ⟨c, r, rfl, inner, hr⟩)
    · exact ⟨t :: c, r, rfl, .sign kind inner, hr⟩
    · exact ⟨c, r, rfl, .primary inner, hr⟩

theorem begins_arguments_iff : Begins .arguments F ts ↔
    F ts ∨ Begins .expression (Optionally .comma (Begins .arguments F)) ts := by
  constructor
  · rintro ⟨_, r, rfl, derives, hr⟩
    cases derives with
    | noArguments => exact .inl hr
    | @argument c cs first later =>
      exact .inr ⟨c, cs ++ r, List.append_assoc _ _ _, first, .inl ⟨cs, r, rfl, later, hr⟩⟩
    | @argumentComma c cs t first kind later =>
      exact .inr ⟨c, t :: (cs ++ r), by simp, first,
        .inr ⟨t, cs ++ r, rfl, kind, cs, r, rfl, later, hr⟩⟩
  · rintro (hr | ⟨c, _, rfl, first, ⟨cs, r, rfl, later, hr⟩ |
      ⟨t, _, rfl, kind, cs, r, rfl, later, hr⟩⟩)
    · exact ⟨[], ts, rfl, .noArguments, hr⟩
    · exact ⟨c ++ cs, r, (List.append_assoc _ _ _).symm, .argument first later, hr⟩
    · exact ⟨c ++ t :: cs, r, by simp, .argumentComma first kind later, hr⟩

theorem begins_parameters_iff : Begins .parameters F ts ↔
    F ts ∨ Starts .identifier (Optionally .comma (Begins .parameters F)) ts := by
  constructor
  · rintro ⟨_, r, rfl, derives, hr⟩
    cases derives with
    | noParameters => exact .inl hr
    | @parameter n cs kind later =>
      exact .inr ⟨n, cs ++ r, rfl, kind, .inl ⟨cs, r, rfl, later, hr⟩⟩
    | @parameterComma n t cs kind kind' later =>
      exact .inr ⟨n, t :: (cs ++ r), rfl, kind, .inr ⟨t, cs ++ r, rfl, kind', cs, r, rfl, later,
        hr⟩⟩
  · rintro (hr | ⟨n, _, rfl, kind, ⟨cs, r, rfl, later, hr⟩ |
      ⟨t, _, rfl, kind', cs, r, rfl, later, hr⟩⟩)
    · exact ⟨[], ts, rfl, .noParameters, hr⟩
    · exact ⟨n :: cs, r, rfl, .parameter kind later, hr⟩
    · exact ⟨n :: t :: cs, r, rfl, .parameterComma kind kind' later, hr⟩

theorem begins_primary_iff : Begins .primary F ts ↔ BeginsPrimary F ts := by
  constructor
  · rintro ⟨_, r, rfl, derives, hr⟩
    cases derives with
    | @integer t kind small => exact .integer kind small hr
    | @trueWord t kind => exact .trueWord ⟨t, r, rfl, kind, hr⟩
    | @falseWord t kind => exact .falseWord ⟨t, r, rfl, kind, hr⟩
    | @name t kind => exact .name ⟨t, r, rfl, kind, hr⟩
    | @grouped o c inner kind value kind' =>
      have closed : Starts .closeParen F (c :: r) := ⟨c, r, rfl, kind', hr⟩
      exact .grouped ⟨o, inner ++ c :: r, by simp, kind, inner, c :: r, rfl, value, closed⟩
    | @call t o c args kind kindOpen list kindClose =>
      have closed : Starts .closeParen F (c :: r) := ⟨c, r, rfl, kindClose, hr⟩
      exact .call ⟨t, o :: (args ++ c :: r), by simp, kind, o, args ++ c :: r, rfl, kindOpen, args,
        c :: r, rfl, list, closed⟩
    | @function t o c o' c' params body kind kindOpen list kindClose kindOpen' block kindClose' =>
      have closed : Starts .closeBrace F (c' :: r) := ⟨c', r, rfl, kindClose', hr⟩
      have opened : Starts .openBrace (Begins .statements (Starts .closeBrace F))
          (o' :: (body ++ c' :: r)) := ⟨o', _, rfl, kindOpen', body, _, rfl, block, closed⟩
      exact .function ⟨t, o :: (params ++ c :: o' :: (body ++ c' :: r)), by simp, kind, o, _, rfl,
        kindOpen, params, _, rfl, list, c, _, rfl, kindClose, opened⟩
  · rintro (⟨kind, small, hr⟩ | ⟨t, r, rfl, kind, hr⟩ | ⟨t, r, rfl, kind, hr⟩ |
      ⟨t, r, rfl, kind, hr⟩ | ⟨o, _, rfl, kind, inner, _, rfl, value, c, r, rfl, kind', hr⟩ |
      ⟨t, _, rfl, kind, o, _, rfl, kindOpen, args, _, rfl, list, c, r, rfl, kindClose, hr⟩ |
      ⟨t, _, rfl, kind, o, _, rfl, kindOpen, params, _, rfl, list, c, _, rfl, kindClose, o', _, rfl,
        kindOpen', body, _, rfl, block, c', r, rfl, kindClose', hr⟩)
    · exact ⟨[_], _, rfl, .integer kind small, hr⟩
    · exact ⟨[t], r, rfl, .trueWord kind, hr⟩
    · exact ⟨[t], r, rfl, .falseWord kind, hr⟩
    · exact ⟨[t], r, rfl, .name kind, hr⟩
    · exact ⟨o :: inner ++ [c], r, by simp, .grouped kind value kind', hr⟩
    · exact ⟨t :: o :: args ++ [c], r, by simp, .call kind kindOpen list kindClose, hr⟩
    · exact ⟨t :: o :: params ++ c :: o' :: body ++ [c'], r, by simp,
        .function kind kindOpen list kindClose kindOpen' block kindClose', hr⟩

theorem BeginsPrimary.operand (h : BeginsPrimary F ts) : Begins .operand F ts :=
  begins_operand_iff.mpr (.inr (begins_primary_iff.mpr h))

variable {n : Nonterminal} {G : Tokens → Prop}

theorem Begins.mono (h : Begins n F ts) (weaker : ∀ r, F r → G r) : Begins n G ts := by
  obtain ⟨c, r, rfl, derives, hr⟩ := h
  exact ⟨c, r, rfl, derives, weaker r hr⟩

/-- A chain of operators behind a chain of operators is one. -/
theorem Begins.operators_append (h : Begins .operators (Begins .operators F) ts) :
    Begins .operators F ts := by
  obtain ⟨c, _, rfl, derives, hr⟩ := h
  generalize hn : Nonterminal.operators = n at derives
  induction derives <;> cases hn
  case noOperators => exact hr
  case operators t op c cs kind first _ _ ih =>
    obtain ⟨cs', r, same, later, hr⟩ := ih rfl
    refine begins_operators_iff.mpr (.inr ⟨op, t, c ++ (cs' ++ r), ?_, kind, c, cs' ++ r, rfl, first,
      cs', r, rfl, later, hr⟩)
    rw [← same]
    simp

theorem Starts.current {kind : Kind} (h : Starts kind F ts) : ts.current.kind = kind := by
  obtain ⟨t, r, rfl, kind, -⟩ := h
  exact kind

/-- Operands start with the start of an operand. -/
theorem Begins.operand_startsOperand (h : Begins .operand F ts) :
    ts.current.kind.startsOperand = true := by
  rcases begins_operand_iff.mp h with ⟨op, sign⟩ | primary
  · rw [sign.current]
    cases op <;> rfl
  · cases begins_primary_iff.mp primary with
    | integer kind _ _ => rw [Tokens.current, kind]; rfl
    | trueWord h => rw [h.current]; rfl
    | falseWord h => rw [h.current]; rfl
    | name h => rw [h.current]; rfl
    | grouped h => rw [h.current]; rfl
    | call h => rw [h.current]; rfl
    | function h => rw [h.current]; rfl

/-- Expressions start with the start of an operand. -/
theorem Begins.startsOperand (h : Begins .expression F ts) :
    ts.current.kind.startsOperand = true :=
  (begins_expression_iff.mp h).operand_startsOperand

end

end MonkeySyntax
