import MonkeySyntax.Proofs.Parser.Rules

/-!
# Room for open expressions

How many more expressions may be opened inside one another matters only where there is no room for them.

* `Parser.Approximates` — a parser does what another one does, wherever it does not run into a limit on
  nesting itself; there is one closure lemma for each way of making parsers.
* `approximates_expression` — an expression with less room approximates one with more.
-/

namespace MonkeySyntax

variable {α β σ : Type}

/-! ## Errors of a sequence -/

namespace Outcome

variable {o : Outcome α} {next : α → Tokens → Outcome β} {e : ParseError}

theorem mem_errors_andThen (h : e ∈ o.errors) : e ∈ (o.andThen next).errors := by
  obtain ⟨result, recorded, rest, reach⟩ := o
  cases result with
  | error e' => exact h
  | ok a =>
    rw [andThen_ok, errors]
    dsimp only
    split
    · exact List.mem_append_left _ h
    · exact List.mem_append_left _ (List.mem_append_left _ h)

theorem mem_errors_andThen_ok {a : α} {recorded : List ParseError} {rest : Tokens} {reach : Nat}
    (h : e ∈ (next a rest).errors) :
    e ∈ ((⟨.ok a, recorded, rest, reach⟩ : Outcome α).andThen next).errors := by
  rw [andThen_ok]
  revert h
  obtain ⟨result, recorded', rest', reach'⟩ := next a rest
  intro h
  cases result with
  | ok b => exact List.mem_append_right _ h
  | error e' =>
    show e ∈ recorded ++ recorded' ++ [e']
    rw [List.append_assoc]
    exact List.mem_append_right _ h

end Outcome

namespace Parser

/-! ## Approximation -/

/-- At the given tokens, `q` does what `p` does, unless `p` runs into a limit on nesting. -/
def ApproximatesAt (p q : Parser α) (ts : Tokens) : Prop :=
  .nestingTooDeep maxHeight ∈ (p.run ts).errors ∨ q.run ts = p.run ts

/-- Wherever `p` runs into no limit on nesting, `q` does the same. -/
def Approximates (p q : Parser α) : Prop := ∀ ts, ApproximatesAt p q ts

theorem Approximates.refl (p : Parser α) : Approximates p p :=
  fun _ => .inr rfl

theorem ApproximatesAt.bind {p q : Parser α} {next next' : α → Parser β} {ts : Tokens}
    (first : ApproximatesAt p q ts)
    (second : ∀ a, (p.run ts).result = .ok a →
      ApproximatesAt (next a) (next' a) (p.run ts).rest) :
    ApproximatesAt (p >>= next) (q >>= next') ts := by
  rw [ApproximatesAt, run_bind, run_bind]
  rcases first with deep | same
  · exact .inl (Outcome.mem_errors_andThen deep)
  · rw [same]
    revert second
    obtain ⟨result, recorded, rest, reach⟩ := p.run ts
    intro second
    cases result with
    | error e => exact .inr rfl
    | ok a =>
      rcases second a rfl with deep | same'
      · exact .inl (Outcome.mem_errors_andThen_ok deep)
      · rw [Outcome.andThen_ok, Outcome.andThen_ok, same']
        exact .inr rfl

theorem Approximates.bind {p q : Parser α} {next next' : α → Parser β} (first : Approximates p q)
    (second : ∀ a, Approximates (next a) (next' a)) : Approximates (p >>= next) (q >>= next') :=
  fun ts => (first ts).bind fun a _ => second a _

/-- What follows is all that differs. -/
theorem Approximates.after {p : Parser α} {next next' : α → Parser β}
    (second : ∀ a, Approximates (next a) (next' a)) : Approximates (p >>= next) (p >>= next') :=
  (Approximates.refl p).bind second

/-- What comes first is all that differs. -/
theorem Approximates.before {p q : Parser α} (first : Approximates p q) (next : α → Parser β) :
    Approximates (p >>= next) (q >>= next) :=
  first.bind fun a => Approximates.refl (next a)

theorem Approximates.nested {p q : Parser α} (h : Approximates p q) :
    Approximates p.nested q.nested := by
  intro ts
  rcases h ts with deep | same
  · exact .inl deep
  · rw [ApproximatesAt, run_nested, run_nested, same]
    exact .inr rfl

theorem Approximates.recovering {p q : Parser α} (h : Approximates p q)
    {resume : Tokens → Tokens} {resume_suffix : ∀ ts, resume ts <:+ ts} :
    Approximates (p.recovering resume resume_suffix) (q.recovering resume resume_suffix) := by
  intro ts
  rcases h ts with deep | same
  · rw [ApproximatesAt, errors_recovering]
    exact .inl deep
  · unfold ApproximatesAt Parser.recovering
    dsimp only
    rw [same]
    exact .inr rfl

theorem Approximates.loop {continues : Kind → Bool} {step step' : σ → Parser σ}
    {progress : ∀ s, (step s).Progresses continues} {progress' : ∀ s, (step' s).Progresses continues}
    (h : ∀ s, Approximates (step s) (step' s)) (s : σ) :
    Approximates (loop continues step progress s) (loop continues step' progress' s) := by
  intro ts
  induction hn : ts.length using Nat.strongRecOn generalizing s ts with
  | ind n ih =>
    rw [ApproximatesAt, run_loop, run_loop]
    split
    · rename_i goesOn
      apply (h s ts).bind
      intro s' value
      have shorter : ((step s).run ts).rest.length < n := hn ▸ progress s ts s' goesOn value
      exact ih _ shorter s' _ rfl
    · exact .inr rfl

theorem Approximates.collect {continues : Kind → Bool} {item item' : Parser α}
    {progress : item.Progresses continues} {progress' : item'.Progresses continues}
    (h : Approximates item item') :
    Approximates (collect continues item progress) (collect continues item' progress') :=
  (Approximates.loop (fun _ => h.before _) []).before _

/-! ## Rules -/

section

variable {expr expr' : Precedence → Rule (Measured Expr)}
  (hexpr : ∀ min, Approximates (expr min).toParser (expr' min).toParser)
include hexpr

theorem approximates_clause : Approximates (clause expr) (clause expr') := by
  apply Approximates.after
  intro first
  split
  · apply Approximates.after
    intro token
    apply Approximates.after
    intro name
    apply Approximates.after
    intro _
    exact (hexpr _).before _
  · apply Approximates.after
    intro token
    exact (hexpr _).before _
  · apply Approximates.after
    intro token
    exact (hexpr _).before _

theorem approximates_rounds (inBody : Bool) :
    Approximates (rounds expr inBody) (rounds expr' inBody) := by
  have statement : Approximates (statement expr) (statement expr') := by
    rw [statement_eq_clause, statement_eq_clause]
    exact (approximates_clause hexpr).before _
  exact Approximates.collect statement.recovering

theorem approximates_block (inBody : Bool) :
    Approximates (block expr inBody) (block expr' inBody) :=
  (approximates_rounds hexpr inBody).before _

theorem approximates_unaryExpression (op : UnaryOp) :
    Approximates (unaryExpression expr op) (unaryExpression expr' op) := by
  apply Approximates.after
  intro token
  exact (hexpr _).before _

theorem approximates_groupedExpression :
    Approximates (groupedExpression expr) (groupedExpression expr') := by
  apply Approximates.after
  intro _
  exact (hexpr _).before _

theorem approximates_callExpression :
    Approximates (callExpression expr) (callExpression expr') := by
  apply Approximates.after
  intro callee
  apply Approximates.after
  intro _
  exact (Approximates.collect ((hexpr _).before _)).before _

theorem approximates_fnExpression : Approximates (fnExpression expr) (fnExpression expr') := by
  apply Approximates.after
  intro token
  apply Approximates.after
  intro _
  apply Approximates.after
  intro params
  apply Approximates.after
  intro _
  apply Approximates.after
  intro _
  exact (approximates_block hexpr true).before _

theorem approximates_operand : Approximates (operand expr) (operand expr') := by
  apply Approximates.after
  intro first
  split
  · exact approximates_unaryExpression hexpr _
  · split
    · exact Approximates.refl _
    · exact Approximates.refl _
    · exact Approximates.refl _
    · exact approximates_groupedExpression hexpr
    · apply Approximates.after
      intro second
      split
      · exact approximates_callExpression hexpr
      · exact Approximates.refl _
    · exact approximates_fnExpression hexpr
    · exact Approximates.refl _
    · exact Approximates.refl _

theorem approximates_extend (left : Measured Expr) :
    Approximates (extend expr left) (extend expr' left) := by
  apply Approximates.after
  intro token
  split
  · apply Approximates.after
    intro sign
    exact (hexpr _).before _
  · exact Approximates.refl _

theorem approximates_climb (min : Precedence) :
    Approximates (climb expr min).toParser (climb expr' min).toParser := by
  apply Approximates.nested
  apply (approximates_operand hexpr).bind
  intro first
  exact Approximates.loop (approximates_extend hexpr) first

end

/-- With more room, an expression is read as before unless there was too little. -/
theorem approximates_expression (room : Nat) (min : Precedence) :
    Approximates (expression room min).toParser (expression (room + 1) min).toParser := by
  induction room generalizing min with
  | zero => exact fun _ => .inl (List.mem_singleton_self _)
  | succ room ih => exact approximates_climb ih min

end Parser

end MonkeySyntax
