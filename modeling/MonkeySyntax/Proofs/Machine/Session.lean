import Mathlib.Order.Bounds.Basic
import MonkeySyntax.Proofs.Lexer
import MonkeySyntax.Proofs.Machine.Rules
import MonkeySyntax.Proofs.Session

/-!
# Runs of the machine

The machine at work on a source, from which some tokens may have been taken before.

* `IsRule.returns` — every rule comes to its end, with as many expressions open as at its start and no
  further back in the buffer.
* `reaches_programs` — the machine reads programs as a session does.
* `invariant_of_reaches` — whatever the source is, the machine never breaks down on it.
* `isGreatest_reach` — the reach of the program rule is the highest count of open expressions.
-/

namespace MonkeySyntax

/-- The source behind its first tokens, or its end if there are not so many. -/
def Source.behind : Nat → Source → Source
  | 0, src => src
  | n + 1, src => Source.behind n src.next.2

/-- Read so many programs, one behind the other. -/
def Session.programs : Nat → Session → List Program × Session
  | 0, session => ([], session)
  | calls + 1, session =>
    let (first, session) := session.program
    let (others, session) := Session.programs calls session
    (first :: others, session)

namespace Machine

variable {α ρ : Type}

/-! ## Rules come to an end -/

/-- The code is that of a rule of the parser. -/
inductive IsRule : {α : Type} → Code α → Prop
  | expect (kind : Kind) : IsRule (.expect kind)
  | skip (kind : Kind) : IsRule (.skip kind)
  | identifier : IsRule .identifier
  | letStatement : IsRule .letStatement
  | returnStatement : IsRule .returnStatement
  | expressionStatement : IsRule .expressionStatement
  | statement : IsRule .statement
  | resume (inBody : Bool) (braces : Nat) : IsRule (.resume inBody braces)
  | statementOrSkip (inBody : Bool) : IsRule (.recovering inBody .statement)
  | block (inBody : Bool) : IsRule (.block inBody)
  | unaryExpression (op : UnaryOp) : IsRule (.unaryExpression op)
  | integerExpression : IsRule .integerExpression
  | booleanExpression (value : Bool) : IsRule (.booleanExpression value)
  | groupedExpression : IsRule .groupedExpression
  | identifierExpression : IsRule .identifierExpression
  | argument : IsRule .argument
  | callExpression : IsRule .callExpression
  | parameter : IsRule .parameter
  | fnExpression : IsRule .fnExpression
  | operand : IsRule .operand
  | binaryExpression (left : Measured Expr) (op : BinaryOp) : IsRule (.binaryExpression left op)
  | extend (left : Measured Expr) : IsRule (.extend left)
  | climb (min : Precedence) : IsRule (.climb min)
  | expression (min : Precedence) : IsRule (.expression min)

/-- From every valid state, the code comes to its end with a value or an error, with as many
expressions open as at its start and no further back in the buffer. -/
def Code.Returns (c : Code α) : Prop :=
  ∀ (ρ : Type) (k : Stack ρ α) (s : State), s.Valid →
    ∃ result s', Reaches (.run c k s) (.back result k s') ∧ s'.Valid ∧ s'.depth = s.depth ∧
      s.pos ≤ s'.pos

/-- What is left is shorter only further on in the buffer. -/
theorem State.After.pos_le {s s' : State} {recorded : List ParseError} {rest : Tokens}
    (h : s.After recorded rest s') (further : rest <:+ s.rest) : s.pos ≤ s'.pos := by
  have shorter := further.length_le
  have inside := h.valid.inside
  rw [← h.rest, State.rest, State.rest, List.length_drop, List.length_drop, h.tokens] at shorter
  rw [h.tokens] at inside
  omega

/-- Code that leads to outcomes comes to its end. -/
theorem returns_of_leadsTo {c : Code α} (h : ∀ (ρ : Type) (k : Stack ρ α) (s : State), s.Valid →
    ∃ o, LeadsTo c k s o ∧ o.rest <:+ s.rest) : c.Returns := by
  intro ρ k s valid
  obtain ⟨o, ⟨s', peaks, after⟩, further⟩ := h ρ k s valid
  exact ⟨o.result, s', peaks.reaches, after.valid, after.depth, after.pos_le further⟩

/-- Code that follows some parser, whatever room there is, comes to its end. -/
theorem returns_of_follows {c : Code α} {p : Nat → Parser α} (h : ∀ room, Follows room c (p room)) :
    c.Returns := by
  apply returns_of_leadsTo
  intro ρ k s valid
  have depth : s.depth + (maxOpen - s.depth) = maxOpen := Nat.add_sub_cancel' valid.depth_le
  exact ⟨_, h _ ρ k s valid depth, (p _).rest_suffix _⟩

/-- Every rule comes to its end. -/
theorem IsRule.returns {c : Code α} (h : IsRule c) : c.Returns := by
  cases h with
  | expect kind => exact returns_of_follows fun _ => follows_expect kind
  | skip kind => exact returns_of_follows fun _ => follows_skip kind
  | identifier => exact returns_of_follows fun _ => follows_identifier
  | letStatement =>
    exact returns_of_follows fun room => follows_letStatement (follows_expression room)
  | returnStatement =>
    exact returns_of_follows fun room => follows_returnStatement (follows_expression room)
  | expressionStatement =>
    exact returns_of_follows fun room => follows_expressionStatement (follows_expression room)
  | statement => exact returns_of_follows fun room => follows_statement (follows_expression room)
  | resume inBody braces =>
    apply returns_of_leadsTo
    intro ρ k s valid
    exact ⟨_, leadsTo_resume valid inBody braces k, Tokens.resume_suffix inBody braces s.rest⟩
  | statementOrSkip inBody =>
    exact returns_of_follows fun room =>
      (follows_statement (follows_expression room)).recovering inBody
  | block inBody =>
    exact returns_of_follows fun room => follows_block (follows_expression room) inBody
  | unaryExpression op =>
    exact returns_of_follows fun room => follows_unaryExpression (follows_expression room) op
  | integerExpression => exact returns_of_follows fun _ => follows_integerExpression
  | booleanExpression value => exact returns_of_follows fun _ => follows_booleanExpression value
  | groupedExpression =>
    exact returns_of_follows fun room => follows_groupedExpression (follows_expression room)
  | identifierExpression => exact returns_of_follows fun _ => follows_identifierExpression
  | argument => exact returns_of_follows fun room => follows_argument (follows_expression room)
  | callExpression =>
    exact returns_of_follows fun room => follows_callExpression (follows_expression room)
  | parameter => exact returns_of_follows fun _ => follows_parameter
  | fnExpression =>
    exact returns_of_follows fun room => follows_fnExpression (follows_expression room)
  | operand => exact returns_of_follows fun room => follows_operand (follows_expression room)
  | binaryExpression left op =>
    exact returns_of_follows fun room => follows_binaryExpression (follows_expression room) left op
  | extend left =>
    exact returns_of_follows fun room => follows_extend (follows_expression room) left
  | climb min =>
    exact returns_of_follows fun room => follows_climb (follows_expression room) min
  | expression min => exact returns_of_follows fun room => follows_expression room min

/-! ## Sessions -/

/-- The machine at the start of the tokens that are left in a source. -/
def State.ofSource (src : Source) : State := ⟨src.tokens, 0, 0, []⟩

theorem State.valid_ofSource (src : Source) : (State.ofSource src).Valid where
  endsOnce := ⟨src.remaining, Token.eof, src.tokens_eq_remaining, rfl,
    fun _ hu => Source.kind_ne_eof_of_mem_remaining hu⟩
  inside := by
    show 0 < src.tokens.length
    simp [Source.tokens_eq_remaining]
  depth_le := Nat.zero_le _

/-- What a session sees of the machine. -/
def State.session (s : State) : Session := ⟨s.rest, s.errors⟩

/-- The machine reads programs as a session does. -/
theorem reaches_programs (calls : Nat) (k : Stack ρ (List Program)) {s : State} (valid : s.Valid)
    (depth : s.depth = 0) :
    ∃ s', Reaches (.run (Code.programs calls) k s)
        (.back (.ok (s.session.programs calls).1) k s') ∧
      s'.Valid ∧ s'.depth = 0 ∧ s'.session = (s.session.programs calls).2 := by
  induction calls generalizing s k with
  | zero => exact ⟨s, reaches_step rfl .refl, valid, depth, rfl⟩
  | succ calls ih =>
    obtain ⟨m, recorded, rest, reach, run⟩ := exists_run_program s.rest
    have room : s.depth + maxOpen = maxOpen := by rw [depth, Nat.zero_add]
    obtain ⟨s₁, peaks, after⟩ := follows_block (follows_expression maxOpen) false ρ
      (.branch (fun first => Code.programs calls >>= fun others => pure (⟨first.value⟩ :: others))
        .fail k) s valid room
    rw [← Parser.program, run] at peaks after
    obtain ⟨s₂, reaches', valid', depth', session⟩ := ih
      (.branch (fun others => pure (⟨m.value⟩ :: others)) .fail k) after.valid
      (after.depth.trans depth)
    have session₁ : s₁.session = ⟨rest, s.session.errors ++ recorded⟩ := by
      rw [State.session, after.rest, after.errors]
      rfl
    have between : s.session.program = (⟨m.value⟩, s₁.session) := by
      rw [Session.program_of_run run, session₁]
    rw [Session.programs, between]
    exact ⟨s₂, reaches_bind peaks.reaches (reaches_bind reaches' (reaches_step rfl .refl)), valid',
      depth', session⟩

/-- Whatever the source is, however many tokens were taken from it before and however many programs
are read, the machine is in a valid state all the time and never breaks down. Every rule comes to its
end, with as many expressions open as at its start and no further back in the buffer, and the machine
ends where a session does. -/
theorem invariant_of_reaches (src : Source) (taken calls : Nat) :
    let s₀ := State.ofSource (src.behind taken)
    let start : Config (List Program) := .run (Code.programs calls) .done s₀
    (∀ c, Reaches start c → c.state.Valid ∧ ∀ fault, step c ≠ .breaks fault) ∧
    (∀ (α : Type) (rule : Code α), IsRule rule → rule.Returns) ∧
    (∀ (α : Type) (c : Code α) (k : Stack (List Program) α) (s : State) (result : Except ParseError α)
      (s' : State), Reaches start (.run c k s) → Reaches (.run c k s) (.back result k s') →
        s'.depth = s.depth ∧ s.pos ≤ s'.pos) ∧
    ∃ s, Reaches start (.back (.ok ((Session.ofSource (src.behind taken)).programs calls).1) .done s) ∧
      s.depth = 0 ∧ s.session = ((Session.ofSource (src.behind taken)).programs calls).2 := by
  intro s₀ start
  have valid : start.Valid := ⟨State.valid_ofSource _, rfl⟩
  refine ⟨?_, ?_, ?_, ?_⟩
  · intro c run
    have here := (valid.reaches run).1
    refine ⟨here.state, fun fault breaks => ?_⟩
    rcases here.step with ends | ⟨c', goes, -⟩
    · rw [breaks] at ends
      cases ends
    · rw [breaks] at goes
      cases goes
  · intro α rule isRule
    exact isRule.returns
  · intro α c k s result s' before run
    -- on the way in and on the way out, the same expressions are waiting on the stack
    have entry := (valid.reaches before).1
    obtain ⟨exit, le⟩ := entry.reaches run
    exact ⟨exit.depth_eq.trans entry.depth_eq.symm, le⟩
  · obtain ⟨s, reaches, -, depth, session⟩ := reaches_programs calls .done (s := s₀) valid.state rfl
    exact ⟨s, reaches, depth, session⟩

/-! ## How many expressions are open -/

/-- With nothing left to do, the machine does not go on. -/
theorem step_done_ne {result : Except ParseError ρ} {s : State} (c : Config ρ) :
    step (.back result .done s) ≠ .goes c := by
  cases result <;> exact nofun

/-- Where the machine has come to its end, it has passed no other configurations than those on the
way. -/
theorem Peaks.isGreatest {n : Nat} {c c' : Config ρ} (h : Peaks n c c')
    (ends : ∀ c'', step c' ≠ .goes c'') :
    IsGreatest {d | ∃ c'', Reaches c c'' ∧ c''.state.depth = d} n := by
  induction h with
  | refl c =>
    refine ⟨⟨c, .refl, rfl⟩, ?_⟩
    rintro d ⟨c'', run, rfl⟩
    rcases Relation.ReflTransGen.cases_head run with rfl | ⟨_, goes, -⟩
    · exact Nat.le_refl _
    · exact absurd goes (ends _)
  | @cons n c c₁ _ first _ ih =>
    obtain ⟨⟨top, run, depth⟩, highest⟩ := ih ends
    constructor
    · rcases Nat.le_total c.state.depth n with le | le
      · rw [Nat.max_eq_right le]
        exact ⟨top, reaches_step first run, depth⟩
      · rw [Nat.max_eq_left le]
        exact ⟨c, .refl, rfl⟩
    · rintro d ⟨c'', run, rfl⟩
      rcases Relation.ReflTransGen.cases_head run with rfl | ⟨c₂, goes, later⟩
      · exact Nat.le_max_left _ _
      · rw [first] at goes
        cases goes
        exact Nat.le_trans (highest ⟨c'', later, rfl⟩) (Nat.le_max_right _ _)

/-- The highest count of open expressions while a program is read is the reach of the program rule. -/
theorem isGreatest_reach (src : Source) :
    IsGreatest {d | ∃ c, Reaches (.run (.block false) (.done : Stack _ _) (State.ofSource src)) c ∧
      c.state.depth = d} (Parser.program.run src.tokens).reach := by
  obtain ⟨s, peaks, -⟩ := follows_block (follows_expression maxOpen) false _ .done
    (State.ofSource src) (State.valid_ofSource src) (Nat.zero_add _)
  have depth : (State.ofSource src).depth + (Parser.program.run src.tokens).reach =
      (Parser.program.run src.tokens).reach := Nat.zero_add _
  exact depth ▸ peaks.isGreatest fun c => step_done_ne c

end Machine

end MonkeySyntax
