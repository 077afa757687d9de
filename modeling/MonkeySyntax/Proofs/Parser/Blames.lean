import MonkeySyntax.Proofs.Literal
import MonkeySyntax.Proofs.Parser.Outcome

/-!
# Blaming tokens

Every error is about a token, and what it says is true of that token. Errors are recorded in the order
of their tokens, and no token is blamed twice, except for the end of the input.

* `ParseError.TrueOf` — what an error says of its token.
* `Blames` — a list of errors is about tokens of the input, further and further on.
* `Parser.Blaming` parsers record such lists only; there is one closure lemma for each way of making
  parsers.

The end of the input is blamed by each body that is still open there, and by the statement around all of
them. So how often it is blamed is counted against the braces that were opened.
-/

namespace MonkeySyntax

/-- What the error says is true of the token. That expressions are nested too deeply says nothing of a
token, but names the limit. -/
def ParseError.TrueOf (t : Token) : ParseError → Prop
  | .unexpectedToken expected found => found = t ∧ t.kind ≠ expected ∧ t.kind ≠ .illegal
  | .noOperand found => found = t ∧ t.kind ≠ .illegal ∧ t.kind.startsOperand = false
  | .integerOutOfRange digits =>
    t.kind = .integer ∧ digits = t.literal ∧ maxInteger < decimal t.literal
  | .illegalByte byte => t.kind = .illegal ∧ byte = t.byte
  | .nestingTooDeep limit => limit = maxHeight

theorem ParseError.trueOf_unexpected {kind : Kind} {t : Token} (h : t.kind ≠ kind) :
    (ParseError.unexpected kind t).TrueOf t := by
  unfold ParseError.unexpected
  split
  · rename_i illegal
    exact ⟨illegal, rfl⟩
  · rename_i legal
    exact ⟨rfl, h, legal⟩

/-! ## Tokens that are blamed -/

namespace Tokens

/-- The number of braces that the tokens open. -/
def openBraces (ts : Tokens) : Nat := ts.countP (·.kind = .openBrace)

theorem openBraces_le {ts rest : Tokens} (h : rest <:+ ts) : rest.openBraces ≤ ts.openBraces :=
  h.sublist.countP_le

theorem openBraces_cons_openBrace {t : Token} (h : t.kind = .openBrace) (ts : Tokens) :
    Tokens.openBraces (t :: ts) = ts.openBraces + 1 :=
  List.countP_cons_of_pos (by simpa using h)

theorem advance_of_eof {ts : Tokens} (h : ts.current.kind = .eof) : ts.advance = ts := by
  cases ts with
  | nil => rfl
  | cons t ts => exact if_pos h

theorem Lexical.current {ts : Tokens} (h : ts.Lexical) : ts.current.Lexical := by
  cases ts with
  | nil => exact rfl
  | cons t ts => exact h.here

end Tokens

/-- The errors are about tokens between `ts` and its end piece `rest`, each about a token behind that of
the error before, and `n` of them about the end of the input, behind which there is nothing but itself. -/
inductive Blames : Nat → List ParseError → Tokens → Tokens → Prop
  | nothing {ts rest : Tokens} : rest <:+ ts → Blames 0 [] ts rest
  | token {n : Nat} {e : ParseError} {es : List ParseError} {ts us rest : Tokens} :
    us <:+ ts → e.TrueOf us.current → us.current.kind ≠ .eof → Blames n es us.advance rest →
    Blames n (e :: es) ts rest
  | atEnd {n : Nat} {e : ParseError} {es : List ParseError} {ts us rest : Tokens} :
    us <:+ ts → e.TrueOf us.current → us.current.kind = .eof → Blames n es us rest →
    Blames (n + 1) (e :: es) ts rest

namespace Blames

variable {n m : Nat} {e : ParseError} {es es' : List ParseError} {ts us rest : Tokens}

theorem suffix (h : Blames n es ts rest) : rest <:+ ts := by
  induction h with
  | nothing further => exact further
  | @token _ _ _ _ us _ inside _ _ _ ih => exact (ih.trans us.advance_suffix).trans inside
  | atEnd inside _ _ _ ih => exact ih.trans inside

/-- More tokens in front of the errors. -/
theorem behind (h : Blames n es us rest) (further : us <:+ ts) : Blames n es ts rest := by
  cases h with
  | nothing inside => exact .nothing (inside.trans further)
  | token inside isTrue notEof later => exact .token (inside.trans further) isTrue notEof later
  | atEnd inside isTrue eof later => exact .atEnd (inside.trans further) isTrue eof later

theorem append (first : Blames n es ts us) (later : Blames m es' us rest) :
    Blames (n + m) (es ++ es') ts rest := by
  induction first with
  | nothing further =>
    rw [Nat.zero_add]
    exact later.behind further
  | token inside isTrue notEof _ ih => exact .token inside isTrue notEof (ih later)
  | @atEnd n _ _ _ _ _ inside isTrue eof _ ih =>
    rw [Nat.add_right_comm]
    exact .atEnd inside isTrue eof (ih later)

/-- Dropping further tokens. -/
theorem dropping (h : Blames n es ts us) (further : rest <:+ us) : Blames n es ts rest := by
  simpa using h.append (.nothing further)

/-- An error about the next token, which has to be dropped thereby. -/
theorem record (h : Blames n es ts rest) (isTrue : e.TrueOf rest.current)
    (notEof : rest.current.kind ≠ .eof) : Blames n (es ++ [e]) ts rest.advance :=
  h.append (.token (List.suffix_refl _) isTrue notEof (.nothing (List.suffix_refl _)))

/-- An error about the end of the input. -/
theorem recordAtEnd (h : Blames n es ts rest) (isTrue : e.TrueOf rest.current)
    (eof : rest.current.kind = .eof) : Blames (n + 1) (es ++ [e]) ts rest :=
  h.append (.atEnd (List.suffix_refl _) isTrue eof (.nothing (List.suffix_refl _)))

end Blames

/-! ## Outcomes -/

variable {α β σ : Type}

/-- What is recorded blames tokens in front of the rest, the end of the input at most once for each brace
that was opened on the way and `credit` more times. An error that stopped the parser is about the token
in front of the rest. -/
def Outcome.BlamesFrom (credit : Nat) (ts : Tokens) (o : Outcome α) : Prop :=
  ∃ n, Blames n o.recorded ts o.rest ∧ n + o.rest.openBraces ≤ ts.openBraces + credit ∧
    ∀ e, o.result = .error e → e.TrueOf o.rest.current

section

variable {credit : Nat} {ts : Tokens}

/-- What the parts may spend adds up. -/
theorem Outcome.BlamesFrom.andThen {credit' : Nat} {o : Outcome α} {next : α → Tokens → Outcome β}
    (first : o.BlamesFrom credit ts)
    (second : ∀ a, o.result = .ok a → (next a o.rest).BlamesFrom credit' o.rest) :
    (o.andThen next).BlamesFrom (credit + credit') ts := by
  obtain ⟨result, recorded, rest, reach⟩ := o
  obtain ⟨n, blames, budget, stops⟩ := first
  cases result with
  | error e =>
    refine ⟨n, blames, Nat.le_trans budget (by omega), fun e' same => ?_⟩
    cases same
    exact stops e rfl
  | ok a =>
    obtain ⟨m, later, budget', stops'⟩ := second a rfl
    refine ⟨n + m, blames.append later, ?_, stops'⟩
    show n + m + (next a rest).rest.openBraces ≤ ts.openBraces + (credit + credit')
    dsimp only at budget budget'
    omega

namespace Parser

/-- Nothing is recorded without a value, and the tokens are dropped up to an end piece of them. -/
theorem blamesFrom_ok {a : α} {rest : Tokens} {reach : Nat} (further : rest <:+ ts) :
    (⟨.ok a, [], rest, reach⟩ : Outcome α).BlamesFrom credit ts :=
  ⟨0, .nothing further, by
    show 0 + rest.openBraces ≤ ts.openBraces + credit
    have fewer := Tokens.openBraces_le further
    omega, fun e h => by cases h⟩

theorem blamesFrom_error {e : ParseError} {reach : Nat} (isTrue : e.TrueOf ts.current) :
    (⟨.error e, [], ts, reach⟩ : Outcome α).BlamesFrom credit ts :=
  ⟨0, .nothing (List.suffix_refl ts), by
    show 0 + ts.openBraces ≤ ts.openBraces + credit
    omega, fun e' h => by cases h; exact isTrue⟩

/-! ## Parsers -/

/-- At all tokens of lexical form, what the parser records blames tokens in front of its rest. -/
def Blaming (credit : Nat) (p : Parser α) : Prop :=
  ∀ ts : Tokens, ts.Lexical → (p.run ts).BlamesFrom credit ts

theorem blaming_pure (a : α) : Blaming credit (pure a : Parser α) :=
  fun ts _ => blamesFrom_ok (List.suffix_refl ts)

theorem Blaming.bind {p : Parser α} {next : α → Parser β} (first : Blaming 0 p)
    (second : ∀ a, Blaming credit (next a)) : Blaming credit (p >>= next) := by
  intro ts lexical
  rw [run_bind, ← Nat.zero_add credit]
  refine (first ts lexical).andThen fun a _ => ?_
  exact second a _ (lexical.suffix (p.rest_suffix ts))

theorem blaming_current_bind {next : Token → Parser β} (h : ∀ t, Blaming credit (next t)) :
    Blaming credit (current >>= next) := by
  intro ts lexical
  rw [run_current_bind]
  exact h _ ts lexical

theorem blaming_expect (kind : Kind) : Blaming 0 (expect kind) := by
  intro ts _
  rw [run_expect]
  split
  · exact blamesFrom_ok ts.advance_suffix
  · rename_i other
    exact blamesFrom_error (ParseError.trueOf_unexpected other)

theorem blaming_skip (kind : Kind) : Blaming 0 (skip kind) :=
  fun ts _ => blamesFrom_ok (ts.skipping_suffix kind)

theorem blaming_above (height : Nat) : Blaming 0 (above height) := by
  intro ts _
  unfold above
  split
  · exact blamesFrom_error rfl
  · exact blamesFrom_ok (List.suffix_refl ts)

theorem Blaming.nested {p : Parser α} (h : Blaming credit p) : Blaming credit p.nested :=
  fun ts lexical => h ts lexical

/-- Only rounds that are gone through have to blame tokens truthfully. -/
theorem Blaming.loop {continues : Kind → Bool} {step : σ → Parser σ}
    {progress : ∀ s, (step s).Progresses continues}
    (h : ∀ s ts, ts.Lexical → continues ts.current.kind = true →
      ((step s).run ts).BlamesFrom 0 ts) (s : σ) :
    Blaming 0 (loop continues step progress s) := by
  intro ts lexical
  induction hn : ts.length using Nat.strongRecOn generalizing s ts with
  | ind n ih =>
    rw [run_loop]
    split
    · rename_i goesOn
      rw [run_bind, ← Nat.zero_add 0]
      refine (h s ts lexical goesOn).andThen fun s' value => ?_
      have shorter : ((step s).run ts).rest.length < n := hn ▸ progress s ts s' goesOn value
      exact ih _ shorter s' _ (lexical.suffix ((step s).rest_suffix ts)) rfl
    · exact blamesFrom_ok (List.suffix_refl ts)

theorem Blaming.collect {continues : Kind → Bool} {item : Parser α}
    {progress : item.Progresses continues} (h : Blaming 0 item) :
    Blaming 0 (collect continues item progress) :=
  (Blaming.loop (fun _ ts lexical _ => h.bind (fun _ => blaming_pure _) ts lexical) []).bind
    fun _ => blaming_pure _

/-- The brace that opens a body may be spent inside it. -/
theorem Blaming.openBrace_bind {next : Token → Parser β} (h : ∀ t, Blaming 1 (next t)) :
    Blaming 0 (expect .openBrace >>= next) := by
  intro ts lexical
  rw [run_bind, run_expect]
  split
  · rename_i here
    have front : ts = ts.current :: ts.advance := Tokens.eq_cons_of_current (by simp [here])
    obtain ⟨n, blames, budget, stops⟩ := h ts.current _ (lexical.suffix ts.advance_suffix)
    rw [Outcome.andThen_ok]
    refine ⟨n, blames.behind ts.advance_suffix, ?_, stops⟩
    have opened := Tokens.openBraces_cons_openBrace here ts.advance
    rw [← front] at opened
    dsimp only
    omega
  · rename_i other
    exact blamesFrom_error (ParseError.trueOf_unexpected other)

end Parser

end

end MonkeySyntax
