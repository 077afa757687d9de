import MonkeySyntax.Proofs.Reading.Yield

/-!
# What is read is well-formed

`Reads.faithful` — tokens of lexical form are read as trees whose stored tokens agree with their
nodes, also where statements are left out. The token of an expression statement is where it began.
-/

namespace MonkeySyntax

/-- The statement is spelled, and the token of an expression statement is a `(` or the leftmost token
of its value. -/
def Stmt.Faithful (s : Stmt) : Prop :=
  s.Spelled ∧
    match s with
    | .expr token value => token = Kind.openParen.token ∨ value.yield.head? = some token
    | _ => True

/-- The tokens in the phrase agree with its nodes; of a `tail`, if those in the expression it starts
from do. -/
def Phrase.Faithful : Phrase → Prop
  | .operand e => e.Everywhere Expr.Agrees Stmt.Faithful
  | .tail _ left e =>
    left.Everywhere Expr.Agrees Stmt.Faithful → e.Everywhere Expr.Agrees Stmt.Faithful
  | .expression _ e => e.Everywhere Expr.Agrees Stmt.Faithful
  | .arguments es => ∀ e ∈ es, e.Everywhere Expr.Agrees Stmt.Faithful
  | .statement s => s.Everywhere Expr.Agrees Stmt.Faithful
  | .block _ ss => ∀ s ∈ ss, s.Everywhere Expr.Agrees Stmt.Faithful

section

variable {lossy : Prop} {ts rest : Tokens} {d : Nat}

theorem ReadsParameters.wellFormed {names : List Ident} (h : ReadsParameters names ts rest)
    (lexical : ts.Lexical) : ∀ name ∈ names, name.WellFormed := by
  induction h with
  | nil _ => exact fun _ h => absurd h List.not_mem_nil
  | cons kind _ ih =>
    have later := ih (lexical.behind.suffix (Tokens.skipping_suffix _ _))
    exact List.forall_mem_cons.mpr ⟨lexical.here.identWellFormed kind, later⟩

theorem Reads.faithful {x : Phrase} (h : Reads lossy x ts rest d) (lexical : ts.Lexical) :
    x.Faithful := by
  induction h with
  | @unary t op e ts rest d kind _ ih =>
    have sign : t = op.kind.token := lexical.here.eq_token kind (by cases op <;> rfl)
    exact ⟨⟨sign, trivial⟩, ih lexical.behind⟩
  | integer kind hvalue =>
    obtain ⟨numeral, rfl, small⟩ := integerValue?_eq_some_iff.mp hvalue
    exact ⟨⟨kind, numeral⟩, rfl, small⟩
  | @boolean t value ts kind =>
    have word := lexical.here.eq_token kind (by cases value <;> rfl)
    exact ⟨word, trivial⟩
  | grouped _ _ _ ih => exact ih lexical.behind
  | name kind _ => exact ⟨lexical.here.identWellFormed kind, trivial⟩
  | call kind _ _ _ ih =>
    have args := ih lexical.behind.behind
    exact ⟨⟨lexical.here.identWellFormed kind, trivial⟩, Expr.allEverywhere_iff.mpr args⟩
  | function kind _ params _ _ _ _ ih =>
    have inParens := lexical.behind.behind
    have body := ih (inParens.suffix params.suffix).behind.behind
    have word := lexical.here.eq_token kind rfl
    exact ⟨⟨⟨word, params.wellFormed inParens⟩, trivial⟩, Stmt.allEverywhere_iff.mpr body⟩
  | done _ => exact id
  | @extend t op _ _ _ _ _ _ _ _ _ kind _ reads _ ihRight ihTail =>
    intro left
    have sign : t = op.kind.token := lexical.here.eq_token kind (by cases op <;> rfl)
    exact ihTail (lexical.behind.suffix reads.suffix)
      ⟨⟨sign, trivial⟩, left, ihRight lexical.behind⟩
  | expression operand _ ihLeft ihTail =>
    exact ihTail (lexical.suffix operand.suffix) (ihLeft lexical)
  | noArguments _ => exact fun _ h => absurd h List.not_mem_nil
  | argument first _ ihFirst ihLater =>
    have later := ihLater ((lexical.suffix first.suffix).suffix (Tokens.skipping_suffix _ _))
    exact List.forall_mem_cons.mpr ⟨ihFirst lexical, later⟩
  | binding kind kindName _ _ ih =>
    have word := lexical.here.eq_token kind rfl
    have name := lexical.behind.here.identWellFormed kindName
    exact ⟨⟨⟨word, name⟩, trivial⟩, ih lexical.behind.behind.behind⟩
  | ret kind _ ih => exact ⟨⟨lexical.here.eq_token kind rfl, trivial⟩, ih lexical.behind⟩
  | @bare e ts _ _ value ih =>
    refine ⟨⟨trivial, (value.leads lexical).imp_left fun kind => ?_⟩, ih lexical⟩
    have front : ts = ts.current :: ts.advance := Tokens.eq_cons_of_current (by rw [kind]; decide)
    exact (lexical ts.current (front ▸ List.mem_cons_self)).eq_token kind rfl
  | finish _ => exact fun _ h => absurd h List.not_mem_nil
  | keep _ first _ ihFirst ihLater =>
    exact List.forall_mem_cons.mpr ⟨ihFirst lexical, ihLater (lexical.suffix first.suffix)⟩
  | drop _ further _ ih => exact ih (lexical.suffix further)

/-- Statements that are read are well-formed. -/
theorem Reads.wellFormed {inBody : Bool} {ss : List Stmt}
    (h : Reads lossy (.block inBody ss) ts rest d) (lexical : ts.Lexical) :
    ∀ s ∈ ss, s.WellFormed := by
  intro s hs
  have whole := h.faithful lexical s hs
  exact whole.mono (fun _ agrees => agrees) fun _ faithful => faithful.1

end

end MonkeySyntax
