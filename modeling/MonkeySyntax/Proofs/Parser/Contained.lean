import MonkeySyntax.Proofs.Braces
import MonkeySyntax.Proofs.Parser.Outcome

/-!
# Containment

What a parser does within one statement stays there: it neither drops a token that could end the
statement around it, nor does it depend on anything behind the next token.

* `Contained` says so of a parser at given tokens, with the number of open braces before and after.
* `Balanced` parsers leave that number as it is; there is one closure lemma for each way of making
  parsers.
-/

namespace MonkeySyntax

open Tokens

namespace Parser

variable {α β σ : Type}

/-- The number of open braces behind a parser that leads to `m` of them, and to `base` if it fails. -/
def levelBehind (base m : Nat) : Except ParseError α → Nat
  | .ok _ => m
  | .error _ => base

/-- From the tokens `ts`, in front of which `n` braces are open, the parser drops none that could end
the statement around it, and leads to `m` open braces, or to `base` if it fails, or to the end of the
input. What it does depends on the dropped tokens and on the next one only. -/
def Contained (base n m : Nat) (p : Parser α) (ts : Tokens) : Prop :=
  ∃ c k result recorded rest reach,
    p.run ts = ⟨result, recorded, rest, reach⟩ ∧ ts = c ++ rest ∧ guardedLevel? n c = some k ∧
    (rest.current.kind = .eof ∨ k = levelBehind base m result) ∧
    ∀ us : Tokens, us.current = rest.current → p.run (c ++ us) = ⟨result, recorded, us, reach⟩

section

variable {base n m : Nat} {p : Parser α} {ts : Tokens}

theorem current_append {c us rest : Tokens} (h : us.current = rest.current) :
    (c ++ us : Tokens).current = (c ++ rest : Tokens).current := by
  cases c with
  | nil => exact h
  | cons t c => rfl

/-- A parser may be replaced by another one where that is decided by the next token. -/
theorem Contained.of_run_eq {q : Parser α} (h : Contained base n m q ts)
    (same : ∀ us : Tokens, us.current = ts.current → p.run us = q.run us) :
    Contained base n m p ts := by
  obtain ⟨c, k, result, recorded, rest, reach, run, rfl, guarded, level, again⟩ := h
  refine ⟨c, k, result, recorded, rest, reach, (same _ rfl).trans run, rfl, guarded, level, ?_⟩
  intro us next
  rw [same _ (current_append next), again us next]

theorem Contained.current_bind {next : Token → Parser α}
    (h : Contained base n m (next ts.current) ts) : Contained base n m (current >>= next) ts :=
  h.of_run_eq fun us same => by rw [run_current_bind, same]

/-- A parser that only looks at the next token. -/
theorem contained_here {result : Except ParseError α} {reach : Nat}
    (run : ∀ us : Tokens, us.current = ts.current → p.run us = ⟨result, [], us, reach⟩)
    (level : ts.current.kind = .eof ∨ n = levelBehind base m result) : Contained base n m p ts :=
  ⟨[], n, result, [], ts, reach, run ts rfl, rfl, rfl, level, run⟩

/-- A parser that takes the next token. -/
theorem contained_next {a : α} {t : Token} {reach : Nat}
    (run : ∀ us : Tokens, p.run (t :: us) = ⟨.ok a, [], us, reach⟩)
    (guarded : t.kind.guardedLevel? n = some m) : Contained base n m p (t :: ts) := by
  refine ⟨[t], m, .ok a, [], ts, reach, run ts, rfl, ?_, .inr rfl, fun us _ => run us⟩
  rw [guardedLevel?_cons, guarded]
  rfl

/-- The levels of a sequence add up; behind the end of the input nothing is dropped any more. -/
theorem Contained.bind {k : Nat} {next : α → Parser β} (first : Contained base n m p ts)
    (second : ∀ a recorded rest reach, p.run ts = ⟨.ok a, recorded, rest, reach⟩ →
      Contained base m k (next a) rest) : Contained base n k (p >>= next) ts := by
  obtain ⟨c, l, result, recorded, rest, reach, run, rfl, guarded, level, again⟩ := first
  cases result with
  | error e =>
    refine ⟨c, l, .error e, recorded, rest, reach, by rw [run_bind, run]; rfl, rfl, guarded, level,
      fun us h => by rw [run_bind, again us h]; rfl⟩
  | ok a =>
    obtain ⟨c', l', result', recorded', rest', reach', run', rfl, guarded', level', again'⟩ :=
      second a recorded rest reach run
    have whole (us : Tokens) (h : us.current = rest'.current) :
        (p >>= next).run (c ++ (c' ++ us)) =
          ⟨result', recorded ++ recorded', us, max reach reach'⟩ := by
      rw [run_bind, again _ (current_append h), Outcome.andThen_ok, again' us h]
    rcases level with atEnd | rfl
    · -- in front of the end of the input, the second part can only stand still
      have nothing : c' = [] := eq_nil_of_guardedLevel? guarded' atEnd
      subst nothing
      exact ⟨c, l, result', _, rest', _, whole rest' rfl, rfl, guarded, .inl atEnd, whole⟩
    · refine ⟨c ++ c', l', result', _, rest', _, whole rest' rfl, ?_, ?_, level', fun us h => ?_⟩
      · rw [List.append_assoc]
      · rw [guardedLevel?_append, guarded]
        exact guarded'
      · rw [List.append_assoc]
        exact whole us h

theorem contained_fail (e : ParseError) (ts : Tokens) :
    Contained n n m (Parser.fail e : Parser α) ts :=
  contained_here (fun _ _ => rfl) (.inr rfl)

theorem contained_pure (a : α) (ts : Tokens) : Contained base n n (pure a : Parser α) ts :=
  contained_here (fun _ _ => rfl) (.inr rfl)

/-- Taking a token leads to the level behind it. -/
theorem contained_expect {kind : Kind} (guarded : kind.guardedLevel? n = some m)
    (level : ts.current.kind ≠ kind → ts.current.kind = .eof ∨ n = base) :
    Contained base n m (expect kind) ts := by
  by_cases here : ts.current.kind = kind
  · have notEof : kind ≠ .eof := by
      rintro rfl
      cases guarded
    have front : ts = ts.current :: ts.advance := Tokens.eq_cons_of_current (here ▸ notEof)
    rw [front]
    exact contained_next (run_expect_cons here notEof) (here ▸ guarded)
  · have run (us : Tokens) (h : us.current = ts.current) :
        (expect kind).run us = ⟨.error (.unexpected kind ts.current), [], us, 0⟩ := by
      rw [run_expect, h, if_neg here]
    exact contained_here run (level here)

/-- A parser with a value may be assumed to lead anywhere if it fails. -/
theorem Contained.of_ok {base' : Nat} (h : Contained base n m p ts)
    (value : ∃ a, (p.run ts).result = .ok a) : Contained base' n m p ts := by
  obtain ⟨c, k, result, recorded, rest, reach, run, split, guarded, level, again⟩ := h
  obtain ⟨a, ha⟩ := value
  rw [run] at ha
  cases ha
  exact ⟨c, k, .ok a, recorded, rest, reach, run, split, guarded, level, again⟩

end

/-! ## Balanced parsers -/

/-- Where at least `least` braces are open, the parser is contained and leaves their number as it
is. -/
def Balanced (least : Nat) (p : Parser α) : Prop :=
  ∀ n, least ≤ n → ∀ ts, Contained n n n p ts

section

variable {least : Nat}

theorem Balanced.mono {p : Parser α} {least' : Nat} (h : Balanced least p) (le : least ≤ least') :
    Balanced least' p :=
  fun n hn => h n (Nat.le_trans le hn)

theorem balanced_pure (a : α) : Balanced least (pure a : Parser α) :=
  fun _ _ ts => contained_pure a ts

theorem balanced_fail (e : ParseError) : Balanced least (Parser.fail e : Parser α) :=
  fun _ _ ts => contained_fail e ts

theorem Balanced.bind {p : Parser α} {next : α → Parser β} (first : Balanced least p)
    (second : ∀ a, Balanced least (next a)) : Balanced least (p >>= next) :=
  fun n hn ts => (first n hn ts).bind fun a _ rest _ _ => second a n hn rest

theorem balanced_expect {kind : Kind} (passes : ∀ n, least ≤ n → kind.guardedLevel? n = some n) :
    Balanced least (expect kind) :=
  fun n hn _ => contained_expect (passes n hn) fun _ => .inr rfl

theorem balanced_skip {kind : Kind} (passes : ∀ n, least ≤ n → kind.guardedLevel? n = some n) :
    Balanced least (skip kind) := by
  intro n hn ts
  by_cases here : ts.current.kind = kind
  · have notEof : kind ≠ .eof := by
      rintro rfl
      cases passes n hn
    have front : ts = ts.current :: ts.advance := Tokens.eq_cons_of_current (here ▸ notEof)
    have run (us : Tokens) : (skip kind).run (ts.current :: us) = ⟨.ok (), [], us, 0⟩ := by
      rw [run_skip, Tokens.skipping_cons notEof here]
    rw [front]
    exact contained_next run (here ▸ passes n hn)
  · have run (us : Tokens) (h : us.current = ts.current) :
        (skip kind).run us = ⟨.ok (), [], us, 0⟩ := by
      rw [run_skip, Tokens.skipping_of_ne (h ▸ here)]
    exact contained_here run (.inr rfl)

theorem balanced_current_bind {next : Token → Parser β} (h : ∀ t, Balanced least (next t)) :
    Balanced least (current >>= next) :=
  fun n hn ts => (h ts.current n hn ts).current_bind

theorem balanced_above (height : Nat) : Balanced least (above height) := by
  unfold above
  split
  · exact balanced_fail _
  · exact balanced_pure _

theorem Balanced.nested {p : Parser α} (h : Balanced least p) : Balanced least p.nested := by
  intro n hn ts
  obtain ⟨c, k, result, recorded, rest, reach, run, split, guarded, level, again⟩ := h n hn ts
  refine ⟨c, k, result, recorded, rest, reach + 1, by rw [run_nested, run], split, guarded, level,
    fun us next => by rw [run_nested, again us next]⟩

theorem Balanced.loop {continues : Kind → Bool} {step : σ → Parser σ}
    {progress : ∀ s, (step s).Progresses continues} (h : ∀ s, Balanced least (step s)) (s : σ) :
    Balanced least (loop continues step progress s) := by
  intro n hn ts
  induction hm : ts.length using Nat.strongRecOn generalizing s ts with
  | ind m ih =>
    -- whether there is another round depends on the next token only
    cases goesOn : continues ts.current.kind with
    | false =>
      apply (contained_pure s ts).of_run_eq
      intro us same
      rw [run_loop, same, goesOn, if_neg Bool.false_ne_true]
    | true =>
      have round : Contained n n n (step s >>= Parser.loop continues step progress) ts := by
        apply (h s n hn ts).bind
        intro s' recorded rest reach run
        have shorter : rest.length < m := by
          simpa [run, hm] using progress s ts s' goesOn (by rw [run])
        exact ih rest.length shorter s' rest rfl
      apply round.of_run_eq
      intro us same
      rw [run_loop, same, goesOn, if_pos rfl]

theorem Balanced.collect {continues : Kind → Bool} {item : Parser α}
    {progress : item.Progresses continues} (h : Balanced least item) :
    Balanced least (collect continues item progress) :=
  (Balanced.loop (fun _ => h.bind fun _ => balanced_pure _) []).bind fun _ => balanced_pure _

/-- Recovering inside a body stays inside it. -/
theorem Balanced.recovering {p : Parser α} (h : Balanced least p) (inside : least ≠ 0) :
    Balanced least (p.recovering (Tokens.resume true 0) (Tokens.resume_suffix true 0)) := by
  intro n hn ts
  obtain ⟨c, k, result, recorded, rest, reach, run, rfl, guarded, level, again⟩ := h n hn ts
  cases result with
  | ok a =>
    have whole (us : Tokens) (next : us.current = rest.current) :
        (p.recovering (Tokens.resume true 0) (Tokens.resume_suffix true 0)).run (c ++ us) =
          ⟨.ok (some a), recorded, us, reach⟩ := by
      unfold Parser.recovering
      dsimp only
      rw [again us next]
    exact ⟨c, k, _, recorded, rest, reach, whole rest rfl, rfl, guarded, level, whole⟩
  | error e =>
    have whole (us : Tokens) (next : us.current = rest.current) :
        (p.recovering (Tokens.resume true 0) (Tokens.resume_suffix true 0)).run (c ++ us) =
          ⟨.ok none, recorded ++ [e], Tokens.resume true 0 us, reach⟩ := by
      unfold Parser.recovering
      dsimp only
      rw [again us next]
    rcases level with atEnd | rfl
    · -- nothing is left to be dropped
      have stays (us : Tokens) (next : us.current = rest.current) : Tokens.resume true 0 us = us :=
        Tokens.resume_of_eof true (by rw [next, atEnd])
      refine ⟨c, k, .ok none, recorded ++ [e], rest, reach, ?_, rfl, guarded, .inl atEnd,
        fun us next => ?_⟩
      · rw [whole rest rfl, stays rest rfl]
      · rw [whole us next, stays us next]
    · -- the tokens dropped on the way to where reading resumes are dropped as well
      have inside' : k ≠ 0 := Nat.ne_zero_of_lt (Nat.lt_of_lt_of_le (Nat.pos_of_ne_zero inside) hn)
      obtain ⟨c', k', split, guarded', level', again'⟩ :=
        Tokens.resume_inBody (n := 0) inside' rest
      have further (us : Tokens) (next : us.current = (Tokens.resume true 0 rest).current) :
          (c' ++ us : Tokens).current = rest.current := by
        rw [current_append next, ← split]
      refine ⟨c ++ c', k', .ok none, recorded ++ [e], Tokens.resume true 0 rest, reach,
        whole rest rfl, ?_, ?_, level', fun us next => ?_⟩
      · rw [List.append_assoc, ← split]
      · rw [guardedLevel?_append, guarded]
        exact guarded'
      · rw [List.append_assoc, whole _ (further us next), again' us next]

end

end Parser

end MonkeySyntax
