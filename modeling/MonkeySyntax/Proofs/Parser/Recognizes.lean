import MonkeySyntax.Proofs.Grammar.Sentences
import MonkeySyntax.Proofs.Parser.Contained

/-!
# Recognition

A parser recognizes a language `D` if it stops where its tokens stop to be the beginning of a sentence
of `D`, and not later.

* `ParseError.Describes` — the token that an error is about.
* `RecognizesAt` — at given tokens, the parser takes a sentence without any error, or nests too deeply,
  or has a first error about the token behind the beginning of a sentence.
* `Recognizes` — at all tokens; there is one closure lemma for each way of making parsers.
-/

namespace MonkeySyntax

/-- The error is about the token: it has the token itself, the text of an integer, or an illegal byte.
That expressions are nested too deeply is about no token. -/
def ParseError.Describes (t : Token) : ParseError → Prop
  | .unexpectedToken _ found => found = t
  | .noOperand found => found = t
  | .integerOutOfRange digits => t.kind = .integer ∧ digits = t.literal
  | .illegalByte byte => t.kind = .illegal ∧ byte = t.byte
  | .nestingTooDeep _ => False

theorem ParseError.describes_unexpected (kind : Kind) (t : Token) :
    (ParseError.unexpected kind t).Describes t := by
  unfold ParseError.unexpected
  split
  · exact ⟨‹_›, rfl⟩
  · rfl

namespace Parser

variable {α β σ : Type}

/-- At the tokens `ts`, the parser takes a sentence of `D`, or something is nested too deeply, or its
first error is about the first token behind the beginning of a sentence of `D`. What it does depends
on the tokens up to there only. -/
inductive RecognizesAt (D : Tokens → Prop) (p : Parser α) (ts : Tokens) : Prop
  | takes (c rest : Tokens) (a : α) (reach : Nat) (split : ts = c ++ rest) (sentence : D c)
    (run : ∀ us : Tokens, us.current = rest.current → p.run (c ++ us) = ⟨.ok a, [], us, reach⟩)
  | rejects (c rest : Tokens) (e : ParseError) (split : ts = c ++ rest)
    (viable : ∃ later, D (c ++ later)) (describes : e.Describes rest.current)
    (run : ∀ us : Tokens, us.current = rest.current → (p.run (c ++ us)).errors.head? = some e)
  | tooDeep (run : (p.run ts).TooDeep)

section

variable {D D₁ D₂ F : Tokens → Prop} {ts : Tokens} {p : Parser α}

theorem RecognizesAt.mono (h : RecognizesAt D₁ p ts) (weaker : ∀ c, D₁ c → D c) :
    RecognizesAt D p ts := by
  cases h with
  | takes c rest a reach split sentence run =>
    exact .takes c rest a reach split (weaker c sentence) run
  | rejects c rest e split viable describes run =>
    exact .rejects c rest e split (viable.imp fun _ => weaker _) describes run
  | tooDeep run => exact .tooDeep run

/-- A parser may be replaced by another one where that is decided by the next token. -/
theorem RecognizesAt.of_run_eq {q : Parser α} (h : RecognizesAt D q ts)
    (same : ∀ us : Tokens, us.current = ts.current → p.run us = q.run us) :
    RecognizesAt D p ts := by
  cases h with
  | takes c rest a reach split sentence run =>
    subst split
    exact .takes c rest a reach rfl sentence fun us next => by
      rw [same _ (current_append next), run us next]
  | rejects c rest e split viable describes run =>
    subst split
    exact .rejects c rest e rfl viable describes fun us next => by
      rw [same _ (current_append next), run us next]
  | tooDeep run => exact .tooDeep (by rwa [same ts rfl])

theorem RecognizesAt.current_bind {next : Token → Parser α}
    (h : RecognizesAt D (next ts.current) ts) : RecognizesAt D (current >>= next) ts :=
  h.of_run_eq fun us same => by rw [run_current_bind, same]

/-- A sentence of a sequence is a sentence of the first part and one of the second part. -/
theorem RecognizesAt.bind {next : α → Parser β} (first : RecognizesAt D₁ p ts)
    (second : ∀ a rest reach, p.run ts = ⟨.ok a, [], rest, reach⟩ → RecognizesAt D₂ (next a) rest)
    [satisfiable : Satisfiable D₂] (join : ∀ c cs, D₁ c → D₂ cs → D (c ++ cs)) :
    RecognizesAt D (p >>= next) ts := by
  cases first with
  | takes c rest a reach split sentence run =>
    subst split
    have whole (us : Tokens) (here : us.current = rest.current) :
        ((p >>= next).run (c ++ us)).errors = ((next a).run us).errors := by
      rw [run_bind, run us here, Outcome.errors_andThen_ok]
    cases second a rest reach (run rest rfl) with
    | takes c' rest' b reach' split sentence' run' =>
      subst split
      refine .takes (c ++ c') rest' b (max reach reach') (List.append_assoc _ _ _).symm
        (join c c' sentence sentence') fun us next => ?_
      rw [List.append_assoc, run_bind, run _ (current_append next), Outcome.andThen_ok,
        run' us next]
      rfl
    | rejects c' rest' e split viable describes run' =>
      subst split
      obtain ⟨later, completed⟩ := viable
      refine .rejects (c ++ c') rest' e (List.append_assoc _ _ _).symm ⟨later, ?_⟩ describes
        fun us next => ?_
      · rw [List.append_assoc]
        exact join c _ sentence completed
      · rw [List.append_assoc, whole _ (current_append next), run' us next]
    | tooDeep run' => exact .tooDeep (by rwa [Outcome.TooDeep, whole rest rfl])
  | rejects c rest e split viable describes run =>
    subst split
    obtain ⟨later, completed⟩ := viable
    obtain ⟨cs, sentence⟩ := satisfiable.exists_tokens
    refine .rejects c rest e rfl ⟨later ++ cs, ?_⟩ describes fun us next => ?_
    · rw [← List.append_assoc]
      exact join _ cs completed sentence
    · rw [run_bind]
      exact Outcome.head?_errors_andThen (run us next) _
  | tooDeep run => exact .tooDeep (run.andThen _)

/-- An error about the next token, where there still is a sentence. -/
theorem recognizesAt_fail {e : ParseError} [satisfiable : Satisfiable D]
    (describes : e.Describes ts.current) : RecognizesAt D (fail e : Parser α) ts :=
  .rejects [] ts e rfl satisfiable.exists_tokens describes fun _ _ => rfl

/-! ## Everywhere -/

/-- The parser recognizes the language at all tokens. -/
def Recognizes (D : Tokens → Prop) (p : Parser α) : Prop := ∀ ts, RecognizesAt D p ts

theorem Recognizes.mono (h : Recognizes D₁ p) (weaker : ∀ c, D₁ c → D c) : Recognizes D p :=
  fun ts => (h ts).mono weaker

theorem Recognizes.bind {next : α → Parser β} (first : Recognizes D₁ p)
    (second : ∀ a, Recognizes D₂ (next a)) [Satisfiable D₂]
    (join : ∀ c cs, D₁ c → D₂ cs → D (c ++ cs)) : Recognizes D (p >>= next) :=
  fun ts => (first ts).bind (fun a rest _ _ => second a rest) join

/-- A sentence of a nonterminal, and a sentence of what is behind it. -/
theorem Recognizes.begins {n : Nonterminal} {next : α → Parser β} (first : Recognizes (Derives n) p)
    (second : ∀ a, Recognizes F (next a)) [Satisfiable F] : Recognizes (Begins n F) (p >>= next) :=
  first.bind second fun c cs sentence hcs => ⟨c, cs, rfl, sentence, hcs⟩

theorem Recognizes.map (h : Recognizes D p) (f : α → β) :
    Recognizes D (p >>= fun a => pure (f a)) := by
  intro ts
  cases h ts with
  | takes c rest a reach split sentence run =>
    exact .takes c rest (f a) reach split sentence fun us next => by
      rw [run_bind, run us next, Outcome.andThen_ok, run_pure, Nat.max_zero]
      rfl
  | rejects c rest e split viable describes run =>
    exact .rejects c rest e split viable describes fun us next =>
      Outcome.head?_errors_andThen (run us next) _
  | tooDeep run => exact .tooDeep (run.andThen _)

theorem recognizes_pure (a : α) : Recognizes Ends (pure a : Parser α) :=
  fun ts => .takes [] ts a 0 rfl rfl fun _ _ => rfl

theorem recognizes_expect_bind {kind : Kind} {next : Token → Parser α} (notEof : kind ≠ .eof)
    (h : ∀ t, Recognizes F (next t)) [Satisfiable F] :
    Recognizes (Starts kind F) (expect kind >>= next) := by
  intro ts
  have here : RecognizesAt (Starts kind Ends) (expect kind) ts := by
    by_cases hit : ts.current.kind = kind
    · have front : ts = [ts.current] ++ ts.advance := Tokens.eq_cons_of_current (hit ▸ notEof)
      exact .takes _ ts.advance ts.current 0 front ⟨_, [], rfl, hit, rfl⟩ fun us _ =>
        run_expect_cons hit notEof us
    · refine .rejects [] ts (.unexpected kind ts.current) rfl
        (inferInstance : Satisfiable (Starts kind Ends)).exists_tokens
        (ParseError.describes_unexpected _ _) fun us next => ?_
      rw [List.nil_append, run_expect, next, if_neg hit]
      rfl
  refine here.bind (fun t rest _ _ => h t rest) ?_
  rintro _ cs ⟨t, _, rfl, kind, rfl⟩ hcs
  exact ⟨t, cs, rfl, kind, hcs⟩

theorem recognizes_skip_bind {kind : Kind} {next : Unit → Parser α} (notEof : kind ≠ .eof)
    (h : Recognizes F (next ())) [Satisfiable F] :
    Recognizes (Optionally kind F) (skip kind >>= next) := by
  intro ts
  have here : RecognizesAt (Optionally kind Ends) (skip kind) ts := by
    by_cases hit : ts.current.kind = kind
    · have front : ts = [ts.current] ++ ts.advance := Tokens.eq_cons_of_current (hit ▸ notEof)
      exact .takes _ ts.advance () 0 front (.inr ⟨_, [], rfl, hit, rfl⟩) fun us _ => by
        rw [run_skip, List.singleton_append, Tokens.skipping_cons notEof hit]
    · exact .takes [] ts () 0 rfl (.inl rfl) fun us next => by
        rw [List.nil_append, run_skip, Tokens.skipping_of_ne (next ▸ hit)]
  refine here.bind (fun _ rest _ _ => h rest) ?_
  rintro _ cs (rfl | ⟨t, _, rfl, kind, rfl⟩) hcs
  · exact .inl hcs
  · exact .inr ⟨t, cs, rfl, kind, hcs⟩

/-- A node that would be too high is nested too deeply; there is no other error. -/
theorem recognizes_above_bind {height : Nat} {next : Nat → Parser α}
    (h : ∀ height, Recognizes F (next height)) : Recognizes F (above height >>= next) := by
  intro ts
  unfold above
  split
  · exact .tooDeep rfl
  · rw [pure_bind]
    exact h _ ts

theorem Recognizes.nested (h : Recognizes D p) : Recognizes D p.nested := by
  intro ts
  cases h ts with
  | takes c rest a reach split sentence run =>
    exact .takes c rest a (reach + 1) split sentence fun us next => by rw [run_nested, run us next]
  | rejects c rest e split viable describes run =>
    exact .rejects c rest e split viable describes run
  | tooDeep run => exact .tooDeep run

/-- Recovery comes after the first error. -/
theorem Recognizes.recovering {resume : Tokens → Tokens} {resume_suffix : ∀ ts, resume ts <:+ ts}
    (h : Recognizes D p) : Recognizes D (p.recovering resume resume_suffix) := by
  intro ts
  cases h ts with
  | takes c rest a reach split sentence run =>
    refine .takes c rest (some a) reach split sentence fun us next => ?_
    unfold Parser.recovering
    dsimp only
    rw [run us next]
  | rejects c rest e split viable describes run =>
    exact .rejects c rest e split viable describes fun us next => by
      rw [errors_recovering, run us next]
  | tooDeep run => exact .tooDeep (by rwa [Outcome.TooDeep, errors_recovering])

/-- Rounds of a loop are a sentence each, and no round is one as well. -/
theorem Recognizes.loop {continues : Kind → Bool} {step : σ → Parser σ}
    {progress : ∀ s, (step s).Progresses continues} (round : ∀ s, Recognizes D₁ (step s))
    (empty : D []) (join : ∀ c cs, D₁ c → D cs → D (c ++ cs)) (s : σ) :
    Recognizes D (loop continues step progress s) := by
  intro ts
  have : Satisfiable D := ⟨[], empty⟩
  induction hn : ts.length using Nat.strongRecOn generalizing s ts with
  | ind n ih =>
    -- whether there is another round depends on the next token only
    cases goesOn : continues ts.current.kind with
    | false =>
      refine .takes [] ts s 0 rfl empty fun us same => ?_
      rw [List.nil_append, run_loop, same, goesOn, if_neg Bool.false_ne_true, run_pure]
    | true =>
      have again : RecognizesAt D (step s >>= Parser.loop continues step progress) ts := by
        refine (round s ts).bind (fun s' rest reach run => ?_) join
        have shorter : rest.length < n := by
          simpa [run, hn] using progress s ts s' goesOn (by rw [run])
        exact ih rest.length shorter s' rest rfl
      refine again.of_run_eq fun us same => ?_
      rw [run_loop, same, goesOn, if_pos rfl]

/-- Items of a list are a sentence each, and no item is one as well. -/
theorem Recognizes.collect {continues : Kind → Bool} {item : Parser α}
    {progress : item.Progresses continues} (h : Recognizes D₁ item) (empty : D [])
    (join : ∀ c cs, D₁ c → D cs → D (c ++ cs)) :
    Recognizes D (collect continues item progress) :=
  (Recognizes.loop (fun _ => h.map _) empty join []).map _

end

end Parser

end MonkeySyntax
