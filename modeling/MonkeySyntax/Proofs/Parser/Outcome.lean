import MonkeySyntax.Parser.Height
import MonkeySyntax.Parser.Outcome

/-!
# Reasoning about outcomes

Parsers are taken apart in two ways.

* Backwards, from a value: `Parser.Gives.bind` and its companions say what the pieces of a parser did
  when the whole gave a value.
* Forwards, to a value: `Outcome.GivesIf` is the claim that a parser gives a certain value and records
  nothing if a condition on depth holds, and otherwise fails for the depth before it fails for
  anything else. It goes through `Outcome.andThen` piece by piece.
-/

namespace MonkeySyntax

/-! ## Tokens in front -/

namespace Tokens

@[simp]
theorem current_cons (t : Token) (ts : Tokens) : Tokens.current (t :: ts) = t := rfl

theorem advance_cons {t : Token} (h : t.kind ≠ .eof) (ts : Tokens) :
    Tokens.advance (t :: ts) = ts := by
  rw [advance, if_neg h]

theorem following_cons {t : Token} (h : t.kind ≠ .eof) (ts : Tokens) :
    Tokens.following (t :: ts) = ts.current := by
  rw [following, if_neg h]

/-- Where the current token is not the end of the input, there is a token in front. -/
theorem eq_cons_of_current {ts : Tokens} (h : ts.current.kind ≠ .eof) :
    ts = ts.current :: ts.advance := by
  cases ts with
  | nil => exact absurd rfl h
  | cons t ts =>
    have front := advance_cons (t := t) h ts
    rw [current_cons, front]

/-- The tokens without the one at the front, if that has the given kind. -/
def skipping (kind : Kind) (ts : Tokens) : Tokens :=
  if ts.current.kind = kind then ts.advance else ts

theorem skipping_cons {kind : Kind} (notEof : kind ≠ .eof) {t : Token} (h : t.kind = kind)
    (ts : Tokens) : skipping kind (t :: ts) = ts := by
  subst h
  simp [skipping, current, advance, notEof]

theorem skipping_of_ne {kind : Kind} {ts : Tokens} (h : ts.current.kind ≠ kind) :
    skipping kind ts = ts :=
  if_neg h

/-- Which tokens are dropped depends on them and on the next one only: in front of other tokens that
begin with the same one, they are dropped as well. -/
def DropsLocally (left : Tokens → Tokens) (ts : Tokens) : Prop :=
  ∃ c, ts = c ++ left ts ∧ ∀ us : Tokens, us.current = (left ts).current →
    (c ++ us).current = ts.current ∧ left (c ++ us) = us

/-- Whether a token is skipped depends on that token only. -/
theorem skipping_local (kind : Kind) (notEof : kind ≠ .eof) (ts : Tokens) :
    DropsLocally (skipping kind) ts := by
  by_cases here : ts.current.kind = kind
  · have front : ts = ts.current :: ts.advance := eq_cons_of_current (here ▸ notEof)
    refine ⟨[ts.current], ?_, fun us _ => ⟨rfl, skipping_cons notEof here us⟩⟩
    rw [skipping, if_pos here]
    exact front
  · have left := skipping_of_ne here
    refine ⟨[], left.symm, fun us same => ?_⟩
    rw [left] at same
    exact ⟨same, skipping_of_ne (by rw [List.nil_append, same]; exact here)⟩

theorem skipping_suffix (kind : Kind) (ts : Tokens) : ts.skipping kind <:+ ts := by
  unfold skipping
  split
  · exact advance_suffix ts
  · exact List.suffix_refl ts

end Tokens

namespace Parser

variable {α β σ : Type}

/-! ## Sequences -/

/-- Parsers that do the same are the same. -/
@[ext]
theorem ext {p q : Parser α} (h : ∀ ts, p.run ts = q.run ts) : p = q := by
  obtain ⟨run, rest_suffix⟩ := p
  obtain ⟨run', rest_suffix'⟩ := q
  obtain rfl : run = run' := funext h
  rfl

instance : LawfulMonad Parser := LawfulMonad.mk' Parser
  (fun p => by
    ext ts
    show (p >>= pure).run ts = _
    rw [run_bind]
    cases p.run ts with
    | mk result recorded rest reach => cases result <;> simp)
  (fun a next => by
    ext ts
    simp)
  (fun p next later => by
    ext ts
    simp only [run_bind]
    cases p.run ts with
    | mk result recorded rest reach =>
      cases result with
      | error e => rfl
      | ok a =>
        rw [Outcome.andThen_ok, Outcome.andThen_ok]
        cases (next a).run rest with
        | mk result' recorded' rest' reach' => cases result' <;> simp [Nat.max_assoc])

theorem Total.exists_run {p : Parser α} (h : p.Total) (ts : Tokens) :
    ∃ a recorded rest reach, p.run ts = ⟨.ok a, recorded, rest, reach⟩ := by
  obtain ⟨a, ha⟩ := h ts
  cases run : p.run ts with
  | mk result recorded rest reach =>
    rw [run] at ha
    cases ha
    exact ⟨a, recorded, rest, reach, rfl⟩

/-! ## Looking ahead -/

/-- Looking at the current token costs nothing. -/
theorem run_current_bind (next : Token → Parser β) (ts : Tokens) :
    (current >>= next).run ts = (next ts.current).run ts := by
  rw [run_bind]
  show Outcome.andThen ⟨.ok ts.current, [], ts, 0⟩ _ = _
  simp

/-- Looking at the following token costs nothing. -/
theorem run_following_bind (next : Token → Parser β) (ts : Tokens) :
    (following >>= next).run ts = (next ts.following).run ts := by
  rw [run_bind]
  show Outcome.andThen ⟨.ok ts.following, [], ts, 0⟩ _ = _
  simp

theorem run_nested (p : Parser α) (ts : Tokens) :
    p.nested.run ts =
      ⟨(p.run ts).result, (p.run ts).recorded, (p.run ts).rest, (p.run ts).reach + 1⟩ := rfl

theorem run_skip (kind : Kind) (ts : Tokens) :
    (skip kind).run ts = ⟨.ok (), [], ts.skipping kind, 0⟩ := rfl

theorem run_expect (kind : Kind) (ts : Tokens) :
    (expect kind).run ts =
      if ts.current.kind = kind then ⟨.ok ts.current, [], ts.advance, 0⟩
      else ⟨.error (.unexpected kind ts.current), [], ts, 0⟩ := rfl

theorem run_expect_cons {t : Token} {kind : Kind} (h : t.kind = kind) (notEof : kind ≠ .eof)
    (ts : Tokens) : (expect kind).run (t :: ts) = ⟨.ok t, [], ts, 0⟩ := by
  have front := Tokens.advance_cons (t := t) (h ▸ notEof) ts
  rw [run_expect, Tokens.current_cons, if_pos h, front]

/-! ## Backwards -/

/-- The parser gives the value and the rest, and records errors on the way only if it may lose
statements. -/
def Gives (lossy : Prop) (p : Parser α) (ts : Tokens) (a : α) (rest : Tokens) (reach : Nat) : Prop :=
  ∃ recorded, p.run ts = ⟨.ok a, recorded, rest, reach⟩ ∧ (recorded ≠ [] → lossy)

section

variable {lossy : Prop} {ts rest : Tokens} {reach : Nat} {a : α} {b : β}

theorem Gives.of_run_eq {p q : Parser α} (h : p.Gives lossy ts a rest reach)
    (same : p.run ts = q.run ts) : q.Gives lossy ts a rest reach := by
  obtain ⟨recorded, given, loses⟩ := h
  exact ⟨recorded, same ▸ given, loses⟩

/-- A sequence gives a value only if both parts do. -/
theorem Gives.bind {p : Parser α} {next : α → Parser β}
    (h : (p >>= next).Gives lossy ts b rest reach) :
    ∃ a rest₁ reach₁ reach₂, p.Gives lossy ts a rest₁ reach₁ ∧
      (next a).Gives lossy rest₁ b rest reach₂ ∧ reach = max reach₁ reach₂ := by
  obtain ⟨recorded, given, loses⟩ := h
  rw [run_bind] at given
  cases first : p.run ts with
  | mk result recorded₁ rest₁ reach₁ =>
    rw [first] at given
    cases result with
    | error e => cases given
    | ok a =>
      cases second : (next a).run rest₁ with
      | mk result₂ recorded₂ rest₂ reach₂ =>
        rw [Outcome.andThen_ok, second] at given
        cases given
        -- an error of either part is an error of the whole
        have loses₁ : recorded₁ ≠ [] → lossy := by
          intro some
          exact loses (List.append_ne_nil_of_left_ne_nil some recorded₂)
        have loses₂ : recorded₂ ≠ [] → lossy := by
          intro some
          exact loses (List.append_ne_nil_of_right_ne_nil recorded₁ some)
        exact ⟨a, rest₁, reach₁, reach₂, ⟨recorded₁, first, loses₁⟩, ⟨recorded₂, second, loses₂⟩,
          rfl⟩

theorem Gives.pure {a' : α} (h : (pure a' : Parser α).Gives lossy ts a rest reach) :
    a' = a ∧ ts = rest ∧ reach = 0 := by
  obtain ⟨recorded, given, -⟩ := h
  cases given
  exact ⟨rfl, rfl, rfl⟩

theorem Gives.fail {e : ParseError} (h : (Parser.fail e : Parser α).Gives lossy ts a rest reach) :
    False := by
  obtain ⟨recorded, given, -⟩ := h
  cases given

theorem Gives.map {p : Parser α} {f : α → β}
    (h : (p >>= fun a => Pure.pure (f a)).Gives lossy ts b rest reach) :
    ∃ a, p.Gives lossy ts a rest reach ∧ f a = b := by
  obtain ⟨a, mid, reach₁, reach₂, first, last, rfl⟩ := h.bind
  obtain ⟨value, rfl, rfl⟩ := last.pure
  exact ⟨a, by rwa [Nat.max_zero], value⟩

theorem Gives.current_bind {next : Token → Parser β}
    (h : (Parser.current >>= next).Gives lossy ts b rest reach) :
    (next ts.current).Gives lossy ts b rest reach :=
  h.of_run_eq (run_current_bind next ts)

theorem Gives.following_bind {next : Token → Parser β}
    (h : (Parser.following >>= next).Gives lossy ts b rest reach) :
    (next ts.following).Gives lossy ts b rest reach :=
  h.of_run_eq (run_following_bind next ts)

/-- A token that has been expected was there. -/
theorem Gives.expect_bind {kind : Kind} {next : Token → Parser β}
    (h : (Parser.expect kind >>= next).Gives lossy ts b rest reach) (notEof : kind ≠ .eof) :
    ∃ t ts', ts = t :: ts' ∧ t.kind = kind ∧ (next t).Gives lossy ts' b rest reach := by
  obtain ⟨t, mid, reach₁, reach₂, ⟨recorded, taken, -⟩, later, rfl⟩ := h.bind
  rw [run_expect] at taken
  split at taken
  · rename_i hit
    have front : ts = ts.current :: ts.advance := Tokens.eq_cons_of_current (hit ▸ notEof)
    cases taken
    exact ⟨_, _, front, hit, by rwa [Nat.zero_max]⟩
  · cases taken

theorem Gives.skip_bind {kind : Kind} {next : Unit → Parser β}
    (h : (Parser.skip kind >>= next).Gives lossy ts b rest reach) :
    (next ()).Gives lossy (ts.skipping kind) b rest reach := by
  obtain ⟨u, mid, reach₁, reach₂, ⟨recorded, taken, -⟩, later, rfl⟩ := h.bind
  cases taken
  rw [Nat.zero_max]
  exact later

/-- What has a node above it is not as high as the limit. -/
theorem Gives.above_bind {height : Nat} {next : Nat → Parser β}
    (h : (above height >>= next).Gives lossy ts b rest reach) :
    height < maxHeight ∧ (next (height + 1)).Gives lossy ts b rest reach := by
  unfold above at h
  split at h
  · exact h.bind.elim fun _ ⟨_, _, _, stopped, _⟩ => stopped.fail.elim
  · rename_i within
    obtain ⟨height', mid, reach₁, reach₂, first, later, rfl⟩ := h.bind
    obtain ⟨rfl, rfl, rfl⟩ := first.pure
    exact ⟨Nat.lt_of_not_le within, by rwa [Nat.zero_max]⟩

theorem Gives.nested {p : Parser α} (h : p.nested.Gives lossy ts a rest reach) :
    ∃ d, p.Gives lossy ts a rest d ∧ reach = d + 1 := by
  obtain ⟨recorded, given, loses⟩ := h
  rw [run_nested] at given
  cases inside : p.run ts with
  | mk result recorded' rest' d =>
    rw [inside] at given
    cases given
    exact ⟨d, ⟨_, inside, loses⟩, rfl⟩

/-- A parser that recovers either had nothing to recover from or has recorded an error. -/
theorem Gives.recovering {p : Parser α} {resume : Tokens → Tokens}
    {resume_suffix : ∀ ts, resume ts <:+ ts} {o : Option α}
    (h : (p.recovering resume resume_suffix).Gives lossy ts o rest reach) :
    (∃ a, o = some a ∧ p.Gives lossy ts a rest reach) ∨ (o = none ∧ lossy ∧ rest <:+ ts) := by
  obtain ⟨_, given, loses⟩ := h
  have further := (p.recovering resume resume_suffix).rest_suffix ts
  rw [given] at further
  unfold Parser.recovering at given
  dsimp only at given
  split at given <;> cases given
  · rename_i inside
    exact .inl ⟨_, rfl, _, inside, loses⟩
  · exact .inr ⟨rfl, loses (by simp), further⟩

/-- A loop that gives a value has gone through rounds that each gave one. -/
theorem Gives.loop_induction {continues : Kind → Bool} {step : σ → Parser σ}
    {progress : ∀ s, (step s).Progresses continues}
    {motive : σ → Tokens → σ → Tokens → Nat → Prop}
    (stop : ∀ s ts, continues ts.current.kind = false → motive s ts s ts 0)
    (round : ∀ s s' s'' ts mid rest d d', continues ts.current.kind = true →
      (step s).Gives lossy ts s' mid d → motive s' mid s'' rest d' →
      motive s ts s'' rest (max d d'))
    {s s' : σ} (h : (loop continues step progress s).Gives lossy ts s' rest reach) :
    motive s ts s' rest reach := by
  -- the induction is on the tokens that are left, of which every round drops one
  induction hn : ts.length using Nat.strongRecOn generalizing s ts reach with
  | ind n ih =>
    cases goesOn : continues ts.current.kind with
    | false =>
      have stopped : (Pure.pure s : Parser σ).Gives lossy ts s' rest reach :=
        h.of_run_eq (by rw [run_loop, if_neg (Bool.eq_false_iff.mp goesOn)])
      obtain ⟨rfl, rfl, rfl⟩ := stopped.pure
      exact stop s ts goesOn
    | true =>
      have again : (step s >>= loop continues step progress).Gives lossy ts s' rest reach :=
        h.of_run_eq (by rw [run_loop, if_pos goesOn])
      obtain ⟨s₁, mid, d, d', first, later, rfl⟩ := again.bind
      have shorter : mid.length < ts.length := by
        obtain ⟨recorded, given, -⟩ := first
        simpa [given] using progress s ts s₁ goesOn (by rw [given])
      exact round s s₁ s' ts mid rest d d' goesOn first (ih mid.length (hn ▸ shorter) later rfl)

/-- A repetition that gives a list has gone through its items one by one. -/
theorem Gives.collect_induction {continues : Kind → Bool} {item : Parser α}
    {progress : item.Progresses continues} {motive : Tokens → List α → Tokens → Nat → Prop}
    (stop : ∀ ts, continues ts.current.kind = false → motive ts [] ts 0)
    (round : ∀ a as ts mid rest d d', continues ts.current.kind = true →
      item.Gives lossy ts a mid d → motive mid as rest d' → motive ts (a :: as) rest (max d d'))
    {as : List α} (h : (collect continues item progress).Gives lossy ts as rest reach) :
    motive ts as rest reach := by
  -- the induction is on the tokens that are left, of which every item takes one
  induction hn : ts.length using Nat.strongRecOn generalizing as ts reach with
  | ind n ih =>
    cases goesOn : continues ts.current.kind with
    | false =>
      have stopped : (Pure.pure [] : Parser (List α)).Gives lossy ts as rest reach :=
        h.of_run_eq (by rw [run_collect, if_neg (Bool.eq_false_iff.mp goesOn)])
      obtain ⟨rfl, rfl, rfl⟩ := stopped.pure
      exact stop ts goesOn
    | true =>
      have again : (item >>= fun a => collect continues item progress >>= fun as =>
          Pure.pure (a :: as)).Gives lossy ts as rest reach :=
        h.of_run_eq (by rw [run_collect, if_pos goesOn])
      obtain ⟨a, mid, d, d', first, others, rfl⟩ := again.bind
      obtain ⟨as', later, rfl⟩ := others.map
      have shorter : mid.length < ts.length := by
        obtain ⟨recorded, given, -⟩ := first
        simpa [given] using progress ts a goesOn (by rw [given])
      exact round a as' ts mid rest d d' goesOn first (ih mid.length (hn ▸ shorter) later rfl)

/-- A repetition ends where it does not go on. -/
theorem Gives.collect_stops {continues : Kind → Bool} {item : Parser α}
    {progress : item.Progresses continues} {as : List α}
    (h : (collect continues item progress).Gives lossy ts as rest reach) :
    continues rest.current.kind = false :=
  Gives.collect_induction (motive := fun _ _ rest _ => continues rest.current.kind = false)
    (fun _ stops => stops) (fun _ _ _ _ _ _ _ _ _ later => later) h

end

/-- What a repetition does after one item. -/
theorem run_collect_of_item {continues : Kind → Bool} {item : Parser α}
    (progress : item.Progresses continues) {ts rest : Tokens} {a : α} {recorded : List ParseError}
    {reach : Nat} (goesOn : continues ts.current.kind = true)
    (first : item.run ts = ⟨.ok a, recorded, rest, reach⟩) :
    (collect continues item progress).run ts =
      let later := (collect continues item progress).run rest
      ⟨later.result.map (a :: ·), recorded ++ later.recorded, later.rest, max reach later.reach⟩ := by
  rw [run_collect, if_pos goesOn, run_bind, first, Outcome.andThen_ok, run_bind]
  cases (collect continues item progress).run rest with
  | mk result recorded' rest' reach' => cases result <;> simp [Except.map]

end Parser

/-! ## Forwards -/

namespace Outcome

variable {α β : Type}

/-- All errors in order: those recorded, and the one that stopped the parser. -/
def errors (o : Outcome α) : List ParseError :=
  match o.result with
  | .ok _ => o.recorded
  | .error e => o.recorded ++ [e]

/-- The first error is that expressions are nested too deeply. -/
def TooDeep (o : Outcome α) : Prop :=
  o.errors.head? = some (.nestingTooDeep maxHeight)

/-- If `fits` holds, the outcome is a value and a rest without any error; if it does not, something
is nested too deeply and there is no error before that. -/
def GivesIf (fits : Prop) (a : α) (rest : Tokens) (reach : Nat) (o : Outcome α) : Prop :=
  (fits ∧ o = ⟨.ok a, [], rest, reach⟩) ∨ (¬fits ∧ o.TooDeep)

theorem tooDeep_ok {a : α} {recorded : List ParseError} {rest : Tokens} {reach : Nat} :
    (⟨.ok a, recorded, rest, reach⟩ : Outcome α).TooDeep ↔
      recorded.head? = some (.nestingTooDeep maxHeight) := Iff.rfl

/-- What happens later cannot come before the first error. -/
theorem head?_errors_andThen {o : Outcome α} {e : ParseError} (h : o.errors.head? = some e)
    (next : α → Tokens → Outcome β) : (o.andThen next).errors.head? = some e := by
  obtain ⟨result, recorded, rest, reach⟩ := o
  cases result with
  | error e => exact h
  | ok a =>
    -- the error has been recorded, so whatever is recorded later comes behind it
    obtain ⟨later, same⟩ := List.head?_eq_some_iff.mp h
    have same : recorded = e :: later := same
    rw [same, andThen_ok]
    unfold errors
    dsimp only
    cases (next a rest).result <;> rfl

/-- Behind a value without errors, the errors are those of what follows. -/
theorem errors_andThen_ok {a : α} {rest : Tokens} {reach : Nat} (next : α → Tokens → Outcome β) :
    ((⟨.ok a, [], rest, reach⟩ : Outcome α).andThen next).errors = (next a rest).errors := rfl

theorem TooDeep.andThen {o : Outcome α} (h : o.TooDeep) (next : α → Tokens → Outcome β) :
    (o.andThen next).TooDeep :=
  head?_errors_andThen h next

section

variable {fits fits' : Prop} {a : α} {b : β} {rest rest' : Tokens} {reach reach' : Nat}

theorem givesIf_ok : (⟨.ok a, [], rest, reach⟩ : Outcome α).GivesIf True a rest reach :=
  .inl ⟨trivial, rfl⟩

theorem GivesIf.congr {o : Outcome α} (h : o.GivesIf fits a rest reach) (same : fits ↔ fits')
    (height : reach = reach') : o.GivesIf fits' a rest reach' := by
  subst height
  rcases h with ⟨within, given⟩ | ⟨beyond, tooDeep⟩
  · exact .inl ⟨same.mp within, given⟩
  · exact .inr ⟨fun h => beyond (same.mpr h), tooDeep⟩

/-- The whole fits if the first part does and the second part does after it. -/
theorem GivesIf.andThen {o : Outcome α} {next : α → Tokens → Outcome β}
    (first : o.GivesIf fits a rest reach)
    (second : fits → (next a rest).GivesIf fits' b rest' reach') :
    (o.andThen next).GivesIf (fits ∧ fits') b rest' (max reach reach') := by
  rcases first with ⟨within, rfl⟩ | ⟨beyond, tooDeep⟩
  · rw [andThen_ok]
    rcases second within with ⟨within', given⟩ | ⟨beyond', tooDeep'⟩
    · rw [given]
      exact .inl ⟨⟨within, within'⟩, rfl⟩
    · exact .inr ⟨fun h => beyond' h.2, tooDeep'⟩
  · exact .inr ⟨fun h => beyond h.1, tooDeep.andThen next⟩

end

end Outcome

namespace Parser

variable {α β : Type} {fits fits' : Prop} {a : α} {b : β} {ts rest rest' : Tokens}
  {reach reach' : Nat}

theorem givesIf_bind {p : Parser α} {next : α → Parser β}
    (first : (p.run ts).GivesIf fits a rest reach)
    (second : fits → ((next a).run rest).GivesIf fits' b rest' reach') :
    ((p >>= next).run ts).GivesIf (fits ∧ fits') b rest' (max reach reach') :=
  first.andThen second

/-- A part that always gives its value adds no condition. -/
theorem givesIf_bind_of_run_eq {p : Parser α} {next : α → Parser β}
    (first : p.run ts = ⟨.ok a, [], rest, 0⟩)
    (second : ((next a).run rest).GivesIf fits b rest' reach) :
    ((p >>= next).run ts).GivesIf fits b rest' reach := by
  rw [run_bind, first]
  exact (Outcome.givesIf_ok.andThen fun _ => second).congr (by simp) (Nat.zero_max _)

theorem givesIf_pure (a : α) (ts : Tokens) : ((pure a : Parser α).run ts).GivesIf True a ts 0 :=
  Outcome.givesIf_ok

/-- What is made of the value at the end adds no condition either. -/
theorem givesIf_map {p : Parser α} (f : α → β) (h : (p.run ts).GivesIf fits a rest reach) :
    ((p >>= fun a => pure (f a)).run ts).GivesIf fits (f a) rest reach :=
  (givesIf_bind h fun _ => givesIf_pure (f a) rest).congr (and_iff_left trivial) (Nat.max_zero _)

theorem givesIf_above (height : Nat) (ts : Tokens) :
    ((above height).run ts).GivesIf (height < maxHeight) (height + 1) ts 0 := by
  unfold above
  split
  · rename_i tooHigh
    exact .inr ⟨Nat.not_lt.mpr tooHigh, rfl⟩
  · rename_i within
    exact .inl ⟨Nat.lt_of_not_le within, rfl⟩

theorem givesIf_nested {p : Parser α} (h : (p.run ts).GivesIf fits a rest reach) :
    (p.nested.run ts).GivesIf fits a rest (reach + 1) := by
  rcases h with ⟨within, given⟩ | ⟨beyond, tooDeep⟩
  · exact .inl ⟨within, by rw [run_nested, given]⟩
  · exact .inr ⟨beyond, tooDeep⟩

section

variable {continues : Kind → Bool} {item : Parser α} {progress : item.Progresses continues}

theorem givesIf_collect_nil (stops : continues ts.current.kind = false) :
    ((collect continues item progress).run ts).GivesIf True [] ts 0 := by
  rw [run_collect, stops]
  exact givesIf_pure [] ts

/-- One item and those behind it. -/
theorem givesIf_collect_cons {as : List α} (goesOn : continues ts.current.kind = true)
    (first : (item.run ts).GivesIf fits a rest reach)
    (later : ((collect continues item progress).run rest).GivesIf fits' as rest' reach') :
    ((collect continues item progress).run ts).GivesIf (fits ∧ fits') (a :: as) rest'
      (max reach reach') := by
  rw [run_collect, if_pos goesOn]
  apply givesIf_bind first
  intro _
  exact givesIf_map (a :: ·) later

end

/-- Recovery moves the error that stopped a parser among the recorded ones and keeps their order. -/
theorem errors_recovering (p : Parser α) (resume : Tokens → Tokens)
    (resume_suffix : ∀ ts, resume ts <:+ ts) (ts : Tokens) :
    ((p.recovering resume resume_suffix).run ts).errors = (p.run ts).errors := by
  unfold recovering
  dsimp only
  cases p.run ts with
  | mk result recorded rest reach => cases result <;> rfl

theorem givesIf_recovering {p : Parser α} {resume : Tokens → Tokens}
    {resume_suffix : ∀ ts, resume ts <:+ ts} (h : (p.run ts).GivesIf fits a rest reach) :
    ((p.recovering resume resume_suffix).run ts).GivesIf fits (some a) rest reach := by
  rcases h with ⟨within, given⟩ | ⟨beyond, tooDeep⟩
  · refine .inl ⟨within, ?_⟩
    unfold recovering
    dsimp only
    rw [given]
  · refine .inr ⟨beyond, ?_⟩
    rwa [Outcome.TooDeep, errors_recovering]

end Parser

end MonkeySyntax
