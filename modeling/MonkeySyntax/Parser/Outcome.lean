import MonkeySyntax.ParseError

/-!
# Parsers and their outcomes

A parser reads tokens from the front of a token list and says, in an `Outcome`, what came of it.

* `Tokens` — the tokens still to be read. They end with `Token.eof`, which is never dropped; past the
  end of a list there is nothing but `Token.eof` either.
* `Outcome` — a value or the error that stopped the parser, the errors that were recorded on the way,
  the rest, and how many nested expressions were open at once.
* `Parser` — a function to outcomes that only ever drops tokens from the front. The proof is part of
  the type, so it holds of every parser by construction.
* `Rule` — a parser that also drops at least one token whenever it succeeds. Repetition asks for such
  a promise, and ends because of it: `Parser.loop` is the one recursion on the length of the input.

`Parser.run_loop` and `Parser.run_collect` unfold repetition without its accumulators.
-/

namespace MonkeySyntax

/-! ## The tokens still to be read -/

/-- The tokens still to be read. -/
abbrev Tokens := List Token

namespace Tokens

/-- The token at the front; the end of the input when there is none. -/
def current : Tokens → Token
  | [] => Token.eof
  | t :: _ => t

/-- The token behind the front one; nothing follows the end of the input but itself. -/
def following : Tokens → Token
  | [] => Token.eof
  | t :: ts => if t.kind = .eof then t else current ts

/-- Drop the token at the front, unless it is the end of the input. -/
def advance : Tokens → Tokens
  | [] => []
  | t :: ts => if t.kind = .eof then t :: ts else ts

theorem advance_suffix (ts : Tokens) : ts.advance <:+ ts := by
  cases ts with
  | nil => exact List.suffix_refl _
  | cons t ts =>
    rw [advance]
    split
    · exact List.suffix_refl _
    · exact List.suffix_cons t ts

theorem length_advance_lt {ts : Tokens} (h : ts.current.kind ≠ .eof) :
    ts.advance.length < ts.length := by
  cases ts with
  | nil => simp [current, Token.eof] at h
  | cons t ts =>
    rw [current] at h
    simp [advance, h]

end Tokens

/-! ## Outcomes -/

/-- What a parser makes of the tokens in front of it. -/
structure Outcome (α : Type) where
  /-- The value, or the error that stopped the parser. -/
  result : Except ParseError α
  /-- The errors recorded on the way, which did not stop it. -/
  recorded : List ParseError
  /-- The tokens it has not dropped. -/
  rest : Tokens
  /-- The largest number of expressions that were open inside one another. -/
  reach : Nat

namespace Outcome

variable {α β : Type}

/-- Go on with the value and the rest, if there is a value; recorded errors add up in order. -/
def andThen (o : Outcome α) (next : α → Tokens → Outcome β) : Outcome β :=
  match o with
  | ⟨.error e, recorded, rest, reach⟩ => ⟨.error e, recorded, rest, reach⟩
  | ⟨.ok a, recorded, rest, reach⟩ =>
    let o' := next a rest
    ⟨o'.result, recorded ++ o'.recorded, o'.rest, max reach o'.reach⟩

@[simp]
theorem andThen_error (e : ParseError) (recorded : List ParseError) (rest : Tokens) (reach : Nat)
    (next : α → Tokens → Outcome β) :
    andThen ⟨.error e, recorded, rest, reach⟩ next = ⟨.error e, recorded, rest, reach⟩ := rfl

@[simp]
theorem andThen_ok (a : α) (recorded : List ParseError) (rest : Tokens) (reach : Nat)
    (next : α → Tokens → Outcome β) :
    andThen ⟨.ok a, recorded, rest, reach⟩ next =
      ⟨(next a rest).result, recorded ++ (next a rest).recorded, (next a rest).rest,
        max reach (next a rest).reach⟩ := rfl

end Outcome

/-! ## Parsers -/

/-- A function from tokens to outcomes whose rest is an end piece of the tokens. -/
structure Parser (α : Type) where
  run : Tokens → Outcome α
  rest_suffix : ∀ ts, (run ts).rest <:+ ts

namespace Parser

variable {α β σ : Type}

/-- Succeed with `a` and drop nothing. -/
def succeed (a : α) : Parser α where
  run ts := ⟨.ok a, [], ts, 0⟩
  rest_suffix ts := List.suffix_refl ts

/-- Run `p`, then the parser that `next` makes of its value. -/
def andThen (p : Parser α) (next : α → Parser β) : Parser β where
  run ts := (p.run ts).andThen fun a rest => (next a).run rest
  rest_suffix ts := by
    have first := p.rest_suffix ts
    revert first
    cases p.run ts with
    | mk result recorded rest reach =>
      intro first
      cases result with
      | error e => exact first
      | ok a => exact ((next a).rest_suffix rest).trans first

instance : Monad Parser where
  pure := succeed
  bind := andThen

@[simp]
theorem run_pure (a : α) (ts : Tokens) : (pure a : Parser α).run ts = ⟨.ok a, [], ts, 0⟩ := rfl

@[simp]
theorem run_bind (p : Parser α) (next : α → Parser β) (ts : Tokens) :
    (p >>= next).run ts = (p.run ts).andThen fun a rest => (next a).run rest := rfl

/-- Stop with an error and drop nothing. -/
def fail (e : ParseError) : Parser α where
  run ts := ⟨.error e, [], ts, 0⟩
  rest_suffix ts := List.suffix_refl ts

/-- Look at the token at the front. -/
def current : Parser Token where
  run ts := ⟨.ok ts.current, [], ts, 0⟩
  rest_suffix ts := List.suffix_refl ts

/-- Look at the token behind the front one. -/
def following : Parser Token where
  run ts := ⟨.ok ts.following, [], ts, 0⟩
  rest_suffix ts := List.suffix_refl ts

/-- Take a token of the given kind, or stop. -/
def expect (kind : Kind) : Parser Token where
  run ts :=
    if ts.current.kind = kind then ⟨.ok ts.current, [], ts.advance, 0⟩
    else ⟨.error (.unexpected kind ts.current), [], ts, 0⟩
  rest_suffix ts := by
    split
    · exact Tokens.advance_suffix ts
    · exact List.suffix_refl ts

/-- Drop the token at the front if it has the given kind. -/
def skip (kind : Kind) : Parser Unit where
  run ts := ⟨.ok (), [], if ts.current.kind = kind then ts.advance else ts, 0⟩
  rest_suffix ts := by
    split
    · exact Tokens.advance_suffix ts
    · exact List.suffix_refl ts

/-- Run `p` as one more open expression. -/
def nested (p : Parser α) : Parser α where
  run ts :=
    let o := p.run ts
    ⟨o.result, o.recorded, o.rest, o.reach + 1⟩
  rest_suffix := p.rest_suffix

/-- Run `p`; where it stops with an error, record the error, drop tokens by `resume` and go on without
a value. -/
def recovering (p : Parser α) (resume : Tokens → Tokens) (resume_suffix : ∀ ts, resume ts <:+ ts) :
    Parser (Option α) where
  run ts :=
    match p.run ts with
    | ⟨.ok a, recorded, rest, reach⟩ => ⟨.ok (some a), recorded, rest, reach⟩
    | ⟨.error e, recorded, rest, reach⟩ => ⟨.ok none, recorded ++ [e], resume rest, reach⟩
  rest_suffix ts := by
    have first := p.rest_suffix ts
    revert first
    cases p.run ts with
    | mk result recorded rest reach =>
      intro first
      cases result with
      | error e => exact (resume_suffix rest).trans first
      | ok a => exact first

/-! ## Progress -/

/-- Where the current token satisfies `start`, `p` drops a token whenever it succeeds. -/
def Progresses (start : Kind → Bool) (p : Parser α) : Prop :=
  ∀ ts a, start ts.current.kind = true → (p.run ts).result = .ok a →
    (p.run ts).rest.length < ts.length

/-- A parser that drops a token whenever it succeeds. -/
def Consumes (p : Parser α) : Prop :=
  ∀ ts a, (p.run ts).result = .ok a → (p.run ts).rest.length < ts.length

theorem Consumes.progresses {p : Parser α} (h : p.Consumes) (start : Kind → Bool) :
    p.Progresses start :=
  fun ts a _ => h ts a

theorem length_rest_le (p : Parser α) (ts : Tokens) : (p.run ts).rest.length ≤ ts.length :=
  (p.rest_suffix ts).length_le

/-- It is enough that the first of two parsers makes progress. -/
theorem Progresses.bind {start : Kind → Bool} {p : Parser α} (h : p.Progresses start)
    (next : α → Parser β) : (p >>= next).Progresses start := by
  intro ts b hs
  have first := h ts
  rw [run_bind]
  revert first
  cases p.run ts with
  | mk result recorded rest reach =>
    intro first
    cases result with
    | error e => simp
    | ok a => exact fun _ => Nat.lt_of_le_of_lt ((next a).length_rest_le rest) (first a hs rfl)

/-- It is enough that the first of two parsers drops a token. -/
theorem Consumes.bind {p : Parser α} (h : p.Consumes) (next : α → Parser β) :
    (p >>= next).Consumes :=
  fun ts b hb => Progresses.bind (h.progresses fun _ => true) next ts b rfl hb

/-- It is enough that the second of two parsers drops a token. -/
theorem consumes_bind {p : Parser α} {next : α → Parser β} (h : ∀ a, (next a).Consumes) :
    (p >>= next).Consumes := by
  intro ts b
  have first := p.length_rest_le ts
  rw [run_bind]
  revert first
  cases p.run ts with
  | mk result recorded rest reach =>
    intro first
    cases result with
    | error e => simp
    | ok a => exact fun hb => Nat.lt_of_lt_of_le (h a rest b hb) first

theorem consumes_fail (e : ParseError) : (fail e : Parser α).Consumes := by
  intro ts a h
  cases h

theorem consumes_expect {kind : Kind} (h : kind ≠ .eof) : (expect kind).Consumes := by
  intro ts a
  unfold expect
  dsimp only
  split
  · rename_i here
    exact fun _ => Tokens.length_advance_lt (here ▸ h)
  · simp

theorem Consumes.nested {p : Parser α} (h : p.Consumes) : p.nested.Consumes :=
  fun ts a ha => h ts a ha

/-! ## Parsers that never stop -/

/-- A parser that always gives a value, whatever errors it records. -/
def Total (p : Parser α) : Prop :=
  ∀ ts, ∃ a, (p.run ts).result = .ok a

theorem total_pure (a : α) : (pure a : Parser α).Total :=
  fun _ => ⟨a, rfl⟩

theorem Total.bind {p : Parser α} (hp : p.Total) {next : α → Parser β}
    (hnext : ∀ a, (next a).Total) : (p >>= next).Total := by
  intro ts
  obtain ⟨a, ha⟩ := hp ts
  rw [run_bind]
  cases outcome : p.run ts with
  | mk result recorded rest reach =>
    rw [outcome] at ha
    cases ha
    exact hnext a rest

theorem total_recovering (p : Parser α) (resume : Tokens → Tokens)
    (resume_suffix : ∀ ts, resume ts <:+ ts) : (p.recovering resume resume_suffix).Total := by
  intro ts
  unfold recovering
  dsimp only
  cases p.run ts with
  | mk result recorded rest reach =>
    cases result with
    | error e => exact ⟨none, rfl⟩
    | ok a => exact ⟨some a, rfl⟩

/-! ## Repetition -/

/-- Repeat `step` while the current token satisfies `continues`, after some rounds that recorded
errors (latest first) and reached some depth. -/
def loopAfter (continues : Kind → Bool) (step : σ → Parser σ)
    (progress : ∀ s, (step s).Progresses continues) (recorded : List ParseError) (reach : Nat)
    (s : σ) (ts : Tokens) : Outcome σ :=
  if _goesOn : continues ts.current.kind = true then
    match _round : (step s).run ts with
    | ⟨.error e, recorded', rest, reach'⟩ =>
      ⟨.error e, recorded.reverse ++ recorded', rest, max reach reach'⟩
    | ⟨.ok s', recorded', rest, reach'⟩ =>
      loopAfter continues step progress (recorded'.reverse ++ recorded) (max reach reach') s' rest
  else
    ⟨.ok s, recorded.reverse, ts, reach⟩
termination_by ts.length
decreasing_by
  have shorter := progress s ts s' _goesOn (by rw [_round])
  rwa [_round] at shorter

section

variable {continues : Kind → Bool} {step : σ → Parser σ}
  {progress : ∀ s, (step s).Progresses continues}

theorem loopAfter_stop {ts : Tokens} (stops : continues ts.current.kind = false)
    (recorded : List ParseError) (reach : Nat) (s : σ) :
    loopAfter continues step progress recorded reach s ts =
      ⟨.ok s, recorded.reverse, ts, reach⟩ := by
  rw [loopAfter, dif_neg (by simp [stops])]

theorem loopAfter_error {ts : Tokens} (goesOn : continues ts.current.kind = true) {s : σ}
    {e : ParseError} {recorded' : List ParseError} {rest : Tokens} {reach' : Nat}
    (round : (step s).run ts = ⟨.error e, recorded', rest, reach'⟩)
    (recorded : List ParseError) (reach : Nat) :
    loopAfter continues step progress recorded reach s ts =
      ⟨.error e, recorded.reverse ++ recorded', rest, max reach reach'⟩ := by
  rw [loopAfter, dif_pos goesOn]
  split <;> simp_all

theorem loopAfter_ok {ts : Tokens} (goesOn : continues ts.current.kind = true) {s s' : σ}
    {recorded' : List ParseError} {rest : Tokens} {reach' : Nat}
    (round : (step s).run ts = ⟨.ok s', recorded', rest, reach'⟩)
    (recorded : List ParseError) (reach : Nat) :
    loopAfter continues step progress recorded reach s ts =
      loopAfter continues step progress (recorded'.reverse ++ recorded) (max reach reach') s'
        rest := by
  rw [loopAfter, dif_pos goesOn]
  split <;> simp_all

/-- What earlier rounds recorded and reached is only added to what the later rounds do. -/
theorem loopAfter_append (newer older : List ParseError) (reach earlier : Nat) (s : σ)
    (ts : Tokens) :
    loopAfter continues step progress (newer ++ older) (max earlier reach) s ts =
      (⟨.ok s, older.reverse, ts, earlier⟩ : Outcome σ).andThen
        (loopAfter continues step progress newer reach) := by
  rw [Outcome.andThen_ok]
  fun_induction loopAfter continues step progress newer reach s ts with
  | case1 newer reach s ts goesOn e recorded rest reach' round =>
    simp [loopAfter_error goesOn round, Nat.max_assoc]
  | case2 newer reach s ts goesOn s' recorded rest reach' round ih =>
    simp only [List.unattach_reverse, List.unattach_attach] at ih
    rw [loopAfter_ok goesOn round, ← ih, List.append_assoc, Nat.max_assoc]
  | case3 newer reach s ts stops =>
    simp [loopAfter_stop (Bool.eq_false_iff.mpr stops)]

theorem loopAfter_eq (recorded : List ParseError) (reach : Nat) (s : σ) (ts : Tokens) :
    loopAfter continues step progress recorded reach s ts =
      (⟨.ok s, recorded.reverse, ts, reach⟩ : Outcome σ).andThen
        (loopAfter continues step progress [] 0) := by
  simpa using loopAfter_append [] recorded 0 reach s ts

theorem loopAfter_total (total : ∀ s, (step s).Total) (recorded : List ParseError) (reach : Nat)
    (s : σ) (ts : Tokens) :
    ∃ s', (loopAfter continues step progress recorded reach s ts).result = .ok s' := by
  fun_induction loopAfter continues step progress recorded reach s ts with
  | case1 recorded reach s ts goesOn e recorded' rest reach' round =>
    obtain ⟨s', hs'⟩ := total s ts
    rw [round] at hs'
    cases hs'
  | case2 recorded reach s ts goesOn s' recorded' rest reach' round ih => simpa using ih
  | case3 recorded reach s ts stops => exact ⟨s, rfl⟩

theorem loopAfter_rest_suffix (recorded : List ParseError) (reach : Nat) (s : σ) (ts : Tokens) :
    (loopAfter continues step progress recorded reach s ts).rest <:+ ts := by
  fun_induction loopAfter continues step progress recorded reach s ts with
  | case1 recorded reach s ts goesOn e recorded' rest reach' round =>
    simpa [round] using (step s).rest_suffix ts
  | case2 recorded reach s ts goesOn s' recorded' rest reach' round ih =>
    have first := (step s).rest_suffix ts
    rw [round] at first
    simp only [List.unattach_reverse, List.unattach_attach] at ih
    exact ih.trans first
  | case3 recorded reach s ts stops => exact List.suffix_refl ts

end

/-- Repeat `step`, each time on the value of the round before, while the current token satisfies
`continues`. -/
def loop (continues : Kind → Bool) (step : σ → Parser σ)
    (progress : ∀ s, (step s).Progresses continues) (s : σ) : Parser σ where
  run ts := loopAfter continues step progress [] 0 s ts
  rest_suffix ts := loopAfter_rest_suffix [] 0 s ts

/-- A loop is one round and the loop again, or nothing. -/
theorem run_loop (continues : Kind → Bool) (step : σ → Parser σ)
    (progress : ∀ s, (step s).Progresses continues) (s : σ) (ts : Tokens) :
    (loop continues step progress s).run ts =
      if continues ts.current.kind then
        (step s >>= loop continues step progress).run ts
      else
        (pure s : Parser σ).run ts := by
  rw [run_bind]
  show loopAfter continues step progress [] 0 s ts = _
  cases goesOn : continues ts.current.kind with
  | false => simp [loopAfter_stop goesOn]
  | true =>
    cases round : (step s).run ts with
    | mk result recorded rest reach =>
      cases result with
      | error e => simp [loopAfter_error goesOn round]
      | ok s' =>
        rw [loopAfter_ok goesOn round, loopAfter_eq]
        simp [loop]

theorem Total.loop {continues : Kind → Bool} {step : σ → Parser σ}
    {progress : ∀ s, (step s).Progresses continues} (total : ∀ s, (step s).Total) (s : σ) :
    (loop continues step progress s).Total :=
  fun ts => loopAfter_total total [] 0 s ts

/-- Repeat `item` while the current token satisfies `continues`, and list the values. -/
def collect (continues : Kind → Bool) (item : Parser α) (progress : item.Progresses continues) :
    Parser (List α) := do
  let latestFirst ← loop continues (fun seen => do return (← item) :: seen)
    (fun _ => progress.bind _) []
  return latestFirst.reverse

theorem Total.collect {continues : Kind → Bool} {item : Parser α}
    {progress : item.Progresses continues} (total : item.Total) :
    (collect continues item progress).Total :=
  (Total.loop (fun _ => total.bind fun _ => total_pure _) []).bind fun _ => total_pure _

theorem run_loop_seen (continues : Kind → Bool) (item : Parser α)
    (progress : item.Progresses continues) (seen : List α) (ts : Tokens) :
    (loop continues (fun seen => do return (← item) :: seen) (fun _ => progress.bind _) seen).run ts =
      (loop continues (fun seen => do return (← item) :: seen) (fun _ => progress.bind _) [] >>=
        fun latestFirst => pure (latestFirst ++ seen)).run ts := by
  induction hn : ts.length using Nat.strongRecOn generalizing seen ts with
  | ind n ih =>
    have shorter := progress ts
    rw [run_bind, run_loop, run_loop]
    split
    · rename_i goesOn
      simp only [run_bind]
      revert shorter
      cases item.run ts with
      | mk result recorded rest reach =>
        intro shorter
        cases result with
        | error e => simp
        | ok a =>
          have less : rest.length < n := hn ▸ shorter a goesOn rfl
          have later := ih rest.length less (a :: seen) rest rfl
          have first := ih rest.length less [a] rest rfl
          rw [run_bind] at later first
          simp only [Outcome.andThen_ok, run_pure, later, first]
          cases (loop continues _ _ []).run rest with
          | mk result' recorded' rest' reach' => cases result' <;> simp
    · simp

/-- A repetition is one item and the repetition again, or nothing. -/
theorem run_collect (continues : Kind → Bool) (item : Parser α)
    (progress : item.Progresses continues) (ts : Tokens) :
    (collect continues item progress).run ts =
      if continues ts.current.kind then
        (do return (← item) :: (← collect continues item progress) : Parser (List α)).run ts
      else
        (pure [] : Parser (List α)).run ts := by
  rw [collect, run_bind, run_loop]
  split
  · simp only [run_bind]
    cases item.run ts with
    | mk result recorded rest reach =>
      cases result with
      | error e => simp
      | ok a =>
        have first := run_loop_seen continues item progress [a] rest
        rw [run_bind] at first
        simp only [Outcome.andThen_ok, run_pure, first]
        cases (loop continues _ _ []).run rest with
        | mk result' recorded' rest' reach' => cases result' <;> simp
  · simp

end Parser

/-! ## Rules -/

/-- A parser together with the promise that it drops a token whenever it succeeds. -/
structure Rule (α : Type) extends Parser α where
  consumes : toParser.Consumes

end MonkeySyntax
