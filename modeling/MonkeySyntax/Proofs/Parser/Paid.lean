import Mathlib.Algebra.Ring.Nat
import MonkeySyntax.Proofs.Parser.Outcome

/-!
# Paying with tokens

How often can a parser record an error or keep a statement? At most as often as it drops a token: it
pays for each of them with one token, and with no token twice.

* `Outcome.PaidFrom` — an outcome stays within a budget of tokens.
* `Parser.Paid` parsers do so at all tokens; there is one closure lemma for each way of making parsers.

An error that stops a parser is not paid for where it arises: at the limit on open expressions, or at
a token that starts no expression, no token may have been dropped to pay for it. It is paid for where
it is recorded. Then either recovery drops a token, or other errors have been recorded before, in the
body of a function, and its first token is left over.
-/

namespace MonkeySyntax

variable {α β σ : Type}

/-! ## Outcomes -/

/-- Out of a budget of tokens, one is paid for each error recorded and `cost a` of them for the value
`a`, and those that are left are still there. An error that stopped the parser has cost nothing yet,
but if others have been recorded, there is a token to pay for it. -/
def Outcome.PaidFrom (budget : Nat) (cost : α → Nat) (o : Outcome α) : Prop :=
  match o.result with
  | .ok a => o.recorded.length + cost a + o.rest.length ≤ budget
  | .error _ => o.recorded = [] ∨ o.recorded.length + o.rest.length < budget

section

variable {budget extra : Nat} {weight : α → Nat} {cost : β → Nat} {o : Outcome α}

/-- What the first part has paid for its value, the second part may spend. If the second part may
stop, it must get something, since the first may have recorded errors. -/
theorem Outcome.PaidFrom.andThen {next : α → Tokens → Outcome β} (first : o.PaidFrom budget weight)
    (second : ∀ a, o.result = .ok a →
      (next a o.rest).PaidFrom (o.rest.length + (extra + weight a)) cost)
    (shrinks : ∀ a, (next a o.rest).rest.length ≤ o.rest.length)
    (kept : ∀ a, 0 < extra + weight a ∨ ∃ b, (next a o.rest).result = .ok b) :
    (o.andThen next).PaidFrom (budget + extra) cost := by
  obtain ⟨result, recorded, rest, reach⟩ := o
  cases result with
  | error e =>
    rcases first with none | less
    · exact .inl none
    · exact .inr (Nat.lt_add_right extra less)
  | ok a =>
    have paid : recorded.length + weight a + rest.length ≤ budget := first
    have later := second a rfl
    have shorter := shrinks a
    have left := kept a
    rw [Outcome.andThen_ok]
    revert later shorter left
    obtain ⟨result', recorded', rest', reach'⟩ := next a rest
    intro later shorter left
    dsimp only at shorter left
    cases result' with
    | ok b =>
      have paid' : recorded'.length + cost b + rest'.length ≤ rest.length + (extra + weight a) :=
        later
      show (recorded ++ recorded').length + cost b + rest'.length ≤ budget + extra
      rw [List.length_append]
      omega
    | error e =>
      have pos : 0 < extra + weight a := by simpa using left
      refine .inr ?_
      show (recorded ++ recorded').length + rest'.length < budget + extra
      rw [List.length_append]
      rcases later with (none : recorded' = []) | less
      · rw [none, List.length_nil]
        omega
      · have less' : recorded'.length + rest'.length < rest.length + (extra + weight a) := less
        omega

/-- The value may be turned into one that costs more, if there is more to spend. -/
theorem Outcome.PaidFrom.map {f : α → β} (h : o.PaidFrom budget weight)
    (le : ∀ a, cost (f a) ≤ extra + weight a) :
    (o.andThen fun a rest => (pure (f a) : Parser β).run rest).PaidFrom (budget + extra) cost := by
  apply h.andThen
  · intro a _
    have more := le a
    show 0 + cost (f a) + o.rest.length ≤ o.rest.length + (extra + weight a)
    omega
  · exact fun _ => Nat.le_refl _
  · exact fun a => .inr ⟨f a, rfl⟩

end

namespace Parser

/-! ## Parsers -/

/-- At all tokens, the parser pays for the errors that it records and for its value, with tokens that
it drops or with `credit` many that have been dropped before. -/
def Paid (credit : Nat) (cost : α → Nat) (p : Parser α) : Prop :=
  ∀ ts, (p.run ts).PaidFrom (ts.length + credit) cost

section

variable {credit : Nat} {weight : α → Nat} {cost : β → Nat}

theorem paid_pure {b : β} (h : cost b ≤ credit) : Paid credit cost (pure b : Parser β) := by
  intro ts
  show 0 + cost b + ts.length ≤ ts.length + credit
  omega

theorem paid_fail (e : ParseError) : Paid credit cost (fail e : Parser β) :=
  fun _ => .inl rfl

/-- What the first parser has paid for its value is credit for the second. -/
theorem Paid.bind {p : Parser α} {next : α → Parser β} (first : Paid 0 weight p)
    (kept : ∀ a, 0 < credit + weight a) (second : ∀ a, Paid (credit + weight a) cost (next a)) :
    Paid credit cost (p >>= next) := by
  intro ts
  rw [run_bind]
  apply (first ts).andThen
  · intro a _
    exact second a _
  · intro a
    exact (next a).length_rest_le _
  · intro a
    exact .inl (kept a)

theorem Paid.map {p : Parser α} {f : α → β} (h : Paid 0 weight p)
    (le : ∀ a, cost (f a) ≤ credit + weight a) : Paid credit cost (p >>= fun a => pure (f a)) :=
  fun ts => (h ts).map le

theorem paid_current_bind {next : Token → Parser β} (h : ∀ t, Paid credit cost (next t)) :
    Paid credit cost (current >>= next) := by
  intro ts
  rw [run_current_bind]
  exact h _ ts

theorem paid_following_bind {next : Token → Parser β} (h : ∀ t, Paid credit cost (next t)) :
    Paid credit cost (following >>= next) := by
  intro ts
  rw [run_following_bind]
  exact h _ ts

/-- A token that is taken can pay for something. -/
theorem paid_expect {kind : Kind} (notEof : kind ≠ .eof) : Paid 0 (fun _ => 1) (expect kind) := by
  intro ts
  rw [run_expect]
  split
  · rename_i here
    have shorter : ts.advance.length < ts.length := Tokens.length_advance_lt (here ▸ notEof)
    show 0 + 1 + ts.advance.length ≤ ts.length
    omega
  · exact .inl rfl

theorem paid_skip (kind : Kind) : Paid 0 (fun _ => 0) (skip kind) := by
  intro ts
  have shorter := (ts.skipping_suffix kind).length_le
  show 0 + 0 + (ts.skipping kind).length ≤ ts.length
  omega

theorem paid_above (height : Nat) : Paid 0 (fun _ => 0) (above height) := by
  unfold above
  split
  · exact paid_fail _
  · exact paid_pure (Nat.le_refl 0)

theorem Paid.nested {p : Parser β} (h : Paid credit cost p) : Paid credit cost p.nested :=
  fun ts => h ts

/-- Each round pays for its value with what the round before has paid. -/
theorem Paid.loop {continues : Kind → Bool} {step : σ → Parser σ} {weight : σ → Nat}
    {progress : ∀ s, (step s).Progresses continues} (kept : ∀ s, 0 < weight s)
    (h : ∀ s, Paid (weight s) weight (step s)) (s : σ) :
    Paid (weight s) weight (loop continues step progress s) := by
  intro ts
  induction hn : ts.length using Nat.strongRecOn generalizing s ts with
  | ind n ih =>
    subst hn
    rw [run_loop]
    split
    · rename_i goesOn
      rw [run_bind]
      show Outcome.PaidFrom (ts.length + weight s + 0) weight _
      apply (h s ts).andThen
      · intro s' value
        have shorter := progress s ts s' goesOn value
        rw [Nat.zero_add]
        exact ih _ shorter s' _ rfl
      · intro s'
        exact (Parser.loop continues step progress s').length_rest_le _
      · intro s'
        exact .inl (Nat.lt_of_lt_of_le (kept s') (Nat.le_add_left _ _))
    · exact paid_pure (Nat.le_refl _) ts

/-- A repetition pays for each of its values, if every value costs something or no item stops. -/
theorem Paid.collect {continues : Kind → Bool} {item : Parser α}
    {progress : item.Progresses continues} (kept : (∀ a, 0 < weight a) ∨ item.Total)
    (h : ∀ ts, continues ts.current.kind = true → (item.run ts).PaidFrom ts.length weight) :
    Paid 0 (fun as => (as.map weight).sum) (collect continues item progress) := by
  intro ts
  induction hn : ts.length using Nat.strongRecOn generalizing ts with
  | ind n ih =>
    subst hn
    rw [run_collect]
    split
    · rename_i goesOn
      rw [run_bind]
      apply (h ts goesOn).andThen
      · intro a value
        have shorter := progress ts a goesOn value
        rw [run_bind]
        apply Outcome.PaidFrom.map (ih _ shorter _ rfl)
        intro as
        rw [List.map_cons, List.sum_cons]
        omega
      · intro a
        exact Parser.length_rest_le _ _
      · intro a
        rcases kept with pos | total
        · exact .inl (Nat.lt_of_lt_of_le (pos a) (Nat.le_add_left _ _))
        · exact .inr ((Total.collect total).bind (fun _ => total_pure _) _)
    · exact paid_pure (Nat.le_refl 0) ts

end

/-- Recovery has a token to pay for the error: one that it drops itself, or one that is left over from
the errors before. -/
theorem paidFrom_recovering {p : Parser α} {weight : α → Nat} {resume : Tokens → Tokens}
    {resume_suffix : ∀ ts, resume ts <:+ ts} {ts : Tokens} (h : Paid 0 weight p)
    (shorter : ((p.recovering resume resume_suffix).run ts).rest.length < ts.length) :
    ((p.recovering resume resume_suffix).run ts).PaidFrom ts.length (·.elim 0 weight) := by
  have paid := h ts
  revert shorter paid
  unfold recovering
  dsimp only
  obtain ⟨result, recorded, rest, reach⟩ := p.run ts
  intro shorter paid
  cases result with
  | ok a => exact paid
  | error e =>
    have shorter' : (resume rest).length < ts.length := shorter
    have further : (resume rest).length ≤ rest.length := (resume_suffix rest).length_le
    show (recorded ++ [e]).length + 0 + (resume rest).length ≤ ts.length
    rw [List.length_append, List.length_singleton]
    rcases paid with (none : recorded = []) | less
    · rw [none, List.length_nil]
      omega
    · have less' : recorded.length + rest.length < ts.length := less
      omega

end Parser

end MonkeySyntax
