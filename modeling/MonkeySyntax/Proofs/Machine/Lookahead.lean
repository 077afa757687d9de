import MonkeySyntax.Proofs.Containment
import MonkeySyntax.Proofs.Machine.Session

/-!
# One token of lookahead

What a round of the loop over statements does depends on the tokens it moves past and on the one in
front of which it stops, and on nothing else in the buffer.

* `Parser.LooksOneAhead` — so much for a parser, which has tokens instead of a buffer.
* `looksOneAhead_statementOrSkip` — a round at top level and a round in a body do so.
* `reaches_atDepth` — where no expression may be opened any more, it does not matter how far the count
  of open expressions is beyond its limit.
* `round_of_agree` — two machines whose buffers agree up to the place where the one stops do the same.
-/

namespace MonkeySyntax

/-! ## Parsers that look one token ahead -/

namespace Tokens

/-- Which tokens are dropped by recovery depends on them and on the next one only. -/
theorem resume_local (inBody : Bool) (braces : Nat) (ts : Tokens) :
    DropsLocally (resume inBody braces) ts := by
  induction ts generalizing braces with
  | nil =>
    refine ⟨[], rfl, fun us same => ⟨same, resume_of_eof inBody ?_⟩⟩
    rw [List.nil_append, same]
    rfl
  | cons t ts ih =>
    -- recovery goes on behind `t` with `n` open braces, or ends behind it, or stays in front of it
    have later {n : Nat} (goesOn : ∀ us, resume inBody braces (t :: us) = resume inBody n us) :
        DropsLocally (resume inBody braces) (t :: ts) := by
      obtain ⟨c, split, again⟩ := ih n
      refine ⟨t :: c, ?_, fun us same => ⟨rfl, ?_⟩⟩
      · rw [goesOn, List.cons_append, ← split]
      · rw [goesOn] at same
        exact (goesOn (c ++ us)).trans (again us same).2
    have behind (ends : ∀ us, resume inBody braces (t :: us) = us) :
        DropsLocally (resume inBody braces) (t :: ts) := by
      refine ⟨[t], ?_, fun us _ => ⟨rfl, ends us⟩⟩
      rw [ends]
      rfl
    have stays (same : ∀ us : Tokens, us.current = t → resume inBody braces us = us) :
        DropsLocally (resume inBody braces) (t :: ts) := by
      refine ⟨[], (same _ rfl).symm, fun us next => ?_⟩
      rw [same (t :: ts) rfl] at next
      exact ⟨next, same us next⟩
    cases kind : t.kind with
    | eof => exact stays fun us same => resume_of_eof inBody (by rw [same, kind])
    | semicolon =>
      by_cases zero : braces = 0
      · exact behind fun us => by rw [resume, kind]; simp [zero]
      · exact later (n := braces) fun us => by rw [resume, kind]; simp [zero]
    | closeBrace =>
      by_cases zero : braces = 0
      · cases inBody with
        | true =>
          subst zero
          exact stays fun us same => resume_of_closeBrace (by rw [same, kind])
        | false => exact behind fun us => by rw [resume, kind]; simp [zero]
      · exact later (n := braces - 1) fun us => by rw [resume, kind]; simp [zero]
    | _ => exact later fun us => by rw [resume, kind]

end Tokens

namespace Parser

variable {α : Type}

/-- On the tokens `ts`, what the parser does depends on the tokens that it drops and on the next one
only. -/
def LooksOneAhead (p : Parser α) (ts : Tokens) : Prop :=
  ∃ c result recorded rest reach, p.run ts = ⟨result, recorded, rest, reach⟩ ∧ ts = c ++ rest ∧
    ∀ us : Tokens, us.current = rest.current → p.run (c ++ us) = ⟨result, recorded, us, reach⟩

theorem Contained.looksOneAhead {base n m : Nat} {p : Parser α} {ts : Tokens}
    (h : Contained base n m p ts) : LooksOneAhead p ts := by
  obtain ⟨c, k, result, recorded, rest, reach, run, split, -, -, again⟩ := h
  exact ⟨c, result, recorded, rest, reach, run, split, again⟩

/-- A round of the loop over statements looks one token ahead, whether it reads a statement or skips
one. -/
theorem looksOneAhead_statementOrSkip {expr : Precedence → Rule (Measured Expr)}
    (hexpr : ∀ min, Balanced 0 (expr min).toParser) (inBody : Bool) (ts : Tokens) :
    LooksOneAhead (statementOrSkip expr inBody) ts := by
  obtain ⟨c, result, recorded, rest, reach, run, rfl, again⟩ :=
    (balanced_clause hexpr 0 (Nat.le_refl 0) ts).looksOneAhead
  cases result with
  | ok m =>
    obtain ⟨c', split, same⟩ := Tokens.skipping_local .semicolon (by decide) rest
    refine ⟨c ++ c', .ok (some m), recorded, rest.skipping .semicolon, reach,
      run_statementOrSkip_of_ok run rfl, ?_, fun us next => ?_⟩
    · rw [List.append_assoc, ← split]
    · obtain ⟨front, skipped⟩ := same us next
      rw [List.append_assoc]
      exact run_statementOrSkip_of_ok (again _ front) skipped
  | error e =>
    obtain ⟨c', split, same⟩ := Tokens.resume_local inBody 0 rest
    refine ⟨c ++ c', .ok none, recorded ++ [e], rest.resume inBody 0, reach,
      run_statementOrSkip_of_error run rfl, ?_, fun us next => ?_⟩
    · rw [List.append_assoc, ← split]
    · obtain ⟨front, resumed⟩ := same us next
      rw [List.append_assoc]
      exact run_statementOrSkip_of_error (again _ front) resumed

end Parser

namespace Machine

open Relation (ReflTransGen)

/-! ## Buffers that agree -/

theorem current_drop (ts : Tokens) (n : Nat) :
    Tokens.current (ts.drop n) = ts[n]?.getD Token.eof := by
  rw [← List.head?_drop]
  cases ts.drop n <;> rfl

/-- Buffers that agree on the tokens `c` behind an index and on the one behind these. -/
theorem drop_eq_append {ts us c rest : Tokens} {n : Nat} (split : ts.drop n = c ++ rest)
    (agree : ∀ i, n ≤ i → i ≤ n + c.length → us[i]? = ts[i]?) :
    us.drop n = c ++ us.drop (n + c.length) ∧
      Tokens.current (us.drop (n + c.length)) = rest.current := by
  have behind : ts.drop (n + c.length) = rest := by
    rw [← List.drop_drop, split, List.drop_left]
  constructor
  · have front : (us.drop n).take c.length = c := by
      apply List.ext_getElem?
      intro i
      by_cases inside : i < c.length
      · have here := agree (n + i) (Nat.le_add_right n i) (Nat.add_le_add_left (Nat.le_of_lt inside) n)
        rw [List.getElem?_take_of_lt inside, List.getElem?_drop, here, ← List.getElem?_drop, split,
          List.getElem?_append_left inside]
      · have outside : c.length ≤ i := Nat.le_of_not_lt inside
        rw [List.getElem?_take_eq_none outside, List.getElem?_eq_none outside]
    rw [← List.drop_drop, ← List.take_append_drop c.length (us.drop n), front]
    simp
  · rw [current_drop, agree _ (Nat.le_add_right n _) (Nat.le_refl _), ← current_drop, behind]

variable {α ρ : Type}

/-- From `s` the rule comes to an end in `s'`, with the outcome `o`. In every buffer that agrees with
the one of `s` from its position up to that of `s'`, it comes to the same end. -/
structure LooksOneAhead (c : Code α) (s : State) (o : Outcome α) (s' : State) : Prop where
  reaches : Reaches (.run c .done s) (.back o.result .done s')
  tokens : s'.tokens = s.tokens
  rest : s'.rest = o.rest
  depth : s'.depth = s.depth
  errors : s'.errors = s.errors ++ o.recorded
  again : ∀ tokens, EndsOnce tokens →
    (∀ i, s.pos ≤ i → i ≤ s'.pos → tokens[i]? = s.tokens[i]?) →
      Reaches (.run c (.done : Stack α α) { s with tokens })
        (.back o.result .done { s' with tokens })

/-- Code looks one token ahead where it follows a parser that does so. -/
theorem Follows.looksOneAhead {room : Nat} {c : Code α} {p : Parser α} (follows : Follows room c p)
    (looks : ∀ ts, p.LooksOneAhead ts) {s : State} (valid : s.Valid)
    (depth : s.depth + room = maxOpen) : ∃ s', LooksOneAhead c s (p.run s.rest) s' := by
  obtain ⟨dropped, result, recorded, rest, reach, run, split, again⟩ := looks s.rest
  obtain ⟨s', peaks, after⟩ := follows α .done s valid depth
  rw [run] at peaks after ⊢
  dsimp only at peaks after
  -- the machine has moved past the tokens that the parser has dropped
  have pos : s'.pos = s.pos + dropped.length := by
    have total := congrArg List.length split
    have left := congrArg List.length after.rest
    have inside := after.valid.inside
    rw [State.rest, List.length_drop, List.length_append] at total
    rw [State.rest, List.length_drop, after.tokens] at left
    rw [after.tokens] at inside
    omega
  refine ⟨s', peaks.reaches, after.tokens, after.rest, after.depth, after.errors,
    fun tokens endsOnce agree => ?_⟩
  have inside : s'.pos < tokens.length := by
    have here := agree s'.pos (by omega) (Nat.le_refl _)
    rw [← after.tokens, List.getElem?_eq_getElem after.valid.inside] at here
    exact (List.getElem?_eq_some_iff.mp here).1
  have valid₂ : State.Valid { s with tokens } :=
    ⟨endsOnce, Nat.lt_of_le_of_lt (pos ▸ Nat.le_add_right s.pos _) inside, valid.depth_le⟩
  obtain ⟨s₂, peaks₂, after₂⟩ := follows α .done { s with tokens } valid₂ depth
  rw [pos] at agree inside
  obtain ⟨front, next⟩ := drop_eq_append split agree
  have rest₂ : State.rest { s with tokens } = dropped ++ tokens.drop (s.pos + dropped.length) :=
    front
  rw [rest₂, again _ next] at peaks₂ after₂
  dsimp only at peaks₂ after₂
  -- it has moved past as many in the other buffer
  have pos₂ : s₂.pos = s'.pos := by
    have tokens₂ : s₂.tokens = tokens := after₂.tokens
    have left : (s₂.tokens.drop s₂.pos).length = (tokens.drop (s.pos + dropped.length)).length :=
      congrArg List.length after₂.rest
    have inside₂ := after₂.valid.inside
    rw [List.length_drop, List.length_drop, tokens₂] at left
    rw [tokens₂] at inside₂
    omega
  have same : s₂ = { s' with tokens } := by
    obtain ⟨tokens₂, place, count, errors⟩ := s₂
    obtain ⟨-, tokensEq, -, depthEq, errorsEq⟩ := after₂
    simp only at tokensEq depthEq errorsEq pos₂
    simp [tokensEq, pos₂, depthEq, errorsEq, after.depth, after.errors]
  exact same ▸ peaks₂.reaches

/-! ## Beyond the limit -/

/-- The state with another count. -/
def State.atDepth (d : Nat) (s : State) : State := { s with depth := d }

/-- The configuration with another count. -/
def Config.atDepth (d : Nat) : Config ρ → Config ρ
  | run c k s => run c k (s.atDepth d)
  | back result k s => back result k (s.atDepth d)

/-- Where no further expression may be opened, the step is the same whatever the count is, and it keeps
the count. -/
def Config.Uniform (c : Config ρ) : Prop :=
  (∃ c' : Config ρ, c'.opens = 0 ∧ ∀ d, maxOpen ≤ d → step (c.atDepth d) = .goes (c'.atDepth d)) ∨
    ∀ d, maxOpen ≤ d → ∀ c', step (c.atDepth d) ≠ .goes c'

section

variable {k : Stack ρ α} {s : State}

theorem Config.uniform_goes {c : Config ρ} (c' : Config ρ) (opens : c'.opens = 0)
    (goes : ∀ d, maxOpen ≤ d → step (c.atDepth d) = .goes (c'.atDepth d)) : c.Uniform :=
  .inl ⟨c', opens, goes⟩

theorem Config.uniform_breaks {c : Config ρ} (fault : Fault)
    (breaks : ∀ d, maxOpen ≤ d → step (c.atDepth d) = .breaks fault) : c.Uniform := by
  refine .inr fun d full c' runs => ?_
  rw [breaks d full] at runs
  cases runs

/-- A step that looks at a token. -/
theorem Config.uniform_look {c : Config ρ} (seen : Except Fault Token) (next : Token → Config ρ)
    (opens : ∀ t, (next t).opens = 0)
    (goes : ∀ d, maxOpen ≤ d → step (c.atDepth d) = .after seen fun t => (next t).atDepth d) :
    c.Uniform := by
  cases seen with
  | ok t => exact uniform_goes (next t) (opens t) goes
  | error fault => exact uniform_breaks fault goes

/-- A step that takes the current token. -/
theorem Config.uniform_advance {c : Config ρ} (s : State) (next : State → Config ρ)
    (opens : ∀ s, (next s).opens = 0)
    (commutes : ∀ d s, (next s).atDepth d = next (s.atDepth d))
    (goes : ∀ d, maxOpen ≤ d → step (c.atDepth d) = .after (s.atDepth d).advance next) :
    c.Uniform := by
  cases here : s.current with
  | ok t =>
    obtain ⟨s', moves⟩ : ∃ s' : State, ∀ d, (s.atDepth d).advance = .ok (s'.atDepth d) := by
      refine ⟨if t.kind = .eof then s else { s with pos := s.pos + 1 }, fun d => ?_⟩
      have same : (s.atDepth d).current = .ok t := here
      rw [State.advance, same, apply_ite (State.atDepth d)]
      rfl
    refine uniform_goes (next s') (opens s') fun d full => ?_
    rw [goes d full, moves d, commutes d]
    rfl
  | error fault =>
    refine uniform_breaks fault fun d full => ?_
    have same : (s.atDepth d).current = .error fault := here
    rw [goes d full, State.advance, same]
    rfl

theorem Config.uniform_resume {k : Stack ρ Unit} (opens : k.opens = 0) (inBody : Bool)
    (braces : Nat) : (Config.run (.resume inBody braces) k s).Uniform := by
  cases here : s.current with
  | error fault =>
    refine uniform_breaks fault fun d _ => ?_
    have same : (s.atDepth d).current = .error fault := here
    rw [atDepth, step, stepRun, same]
  | ok t =>
    have first (d : Nat) : step (atDepth d (.run (.resume inBody braces) k s)) =
        stepResume inBody braces k (s.atDepth d) t.kind := by
      have same : (s.atDepth d).current = .ok t := here
      rw [atDepth, step, stepRun, same]
    have stays (goes : ∀ s, stepResume inBody braces k s t.kind = .goes (.back (.ok ()) k s)) :
        (Config.run (.resume inBody braces) k s).Uniform :=
      uniform_goes (.back (.ok ()) k s) opens fun d _ => (first d).trans (goes _)
    have ends (goes : ∀ s, stepResume inBody braces k s t.kind =
        .after s.advance fun s => .back (.ok ()) k s) :
        (Config.run (.resume inBody braces) k s).Uniform :=
      uniform_advance s (fun s => .back (.ok ()) k s) (fun _ => opens) (fun _ _ => rfl)
        fun d _ => (first d).trans (goes _)
    have later {n : Nat} (goes : ∀ s, stepResume inBody braces k s t.kind =
        .after s.advance fun s => .run (.resume inBody n) k s) :
        (Config.run (.resume inBody braces) k s).Uniform :=
      uniform_advance s (fun s => .run (.resume inBody n) k s) (fun _ => opens)
        (fun _ _ => rfl) fun d _ => (first d).trans (goes _)
    cases kind : t.kind with
    | eof => exact stays fun s => by rw [kind, stepResume]
    | semicolon =>
      cases braces with
      | zero => exact ends fun s => by rw [kind]; rfl
      | succ n => exact later (n := n + 1) fun s => by rw [kind]; rfl
    | closeBrace =>
      cases braces with
      | zero =>
        cases inBody with
        | true => exact stays fun s => by rw [kind]; rfl
        | false => exact ends fun s => by rw [kind]; rfl
      | succ n => exact later (n := n) fun s => by rw [kind]; rfl
    | openBrace => exact later (n := braces + 1) fun s => by rw [kind]; rfl
    | _ => exact later (n := braces) fun s => by rw [kind]; rfl

end

/-- Where no expression is waiting to be closed, the machine goes on in the same way from every count
at which no further expression may be opened. -/
theorem Config.uniform {c : Config ρ} (opens : c.opens = 0) : c.Uniform := by
  cases c with
  | run code k s =>
    cases code with
    | give a => exact uniform_goes (.back (.ok a) k s) opens fun d _ => rfl
    | fail e => exact uniform_goes (.back (.error e) k s) opens fun d _ => rfl
    | branch first ok failed =>
      exact uniform_goes (.run first (.branch ok failed k) s) opens fun d _ => rfl
    | current =>
      exact uniform_look s.current (fun t => .back (.ok t) k s) (fun _ => opens) fun d _ => rfl
    | following =>
      exact uniform_look s.following (fun t => .back (.ok t) k s) (fun _ => opens) fun d _ => rfl
    | advance =>
      exact uniform_advance s (fun s => .back (.ok ()) k s) (fun _ => opens)
        (fun _ _ => rfl) fun d _ => rfl
    | record e =>
      exact uniform_goes (.back (.ok ()) k { s with errors := s.errors ++ [e] }) opens
        fun d _ => rfl
    | resume inBody braces => exact uniform_resume opens inBody braces
    | repeatWhile continues round a =>
      refine uniform_look s.current (fun t => if continues t.kind then
        .run (round a) (.again continues round k) s else .back (.ok a) k s) (fun t => ?_)
        fun d _ => ?_
      · split <;> exact opens
      · rw [atDepth, step, stepRun]
        congr 1
        funext t
        split <;> rfl
    | expression min =>
      refine uniform_goes (.back (.error (.nestingTooDeep maxHeight)) k s) opens
        fun d full => ?_
      exact if_pos full
  | back result k s =>
    cases k with
    | done => exact .inr fun d _ c' => step_done_ne c'
    | branch ok failed k =>
      cases result with
      | ok a => exact uniform_goes (.run (ok a) k s) opens fun d _ => rfl
      | error e => exact uniform_goes (.run (failed e) k s) opens fun d _ => rfl
    | again continues round k =>
      cases result with
      | ok a =>
        exact uniform_goes (.run (.repeatWhile continues round a) k s) opens fun d _ => rfl
      | error e => exact uniform_goes (.back (.error e) k s) opens fun d _ => rfl
    | close k => cases opens

@[simp] theorem Config.atDepth_atDepth (c : Config ρ) (d d' : Nat) :
    (c.atDepth d).atDepth d' = c.atDepth d' := by
  cases c <;> rfl

theorem Config.opens_atDepth (c : Config ρ) (d : Nat) : (c.atDepth d).opens = c.opens := by
  cases c <;> rfl

/-- Beyond the limit, a run does not depend on the count. -/
theorem reaches_atDepth {c c' : Config ρ} {d d' : Nat} (opens : c.opens = 0) (full : maxOpen ≤ d)
    (full' : maxOpen ≤ d') (run : Reaches (c.atDepth d) c') :
    Reaches (c.atDepth d') (c'.atDepth d') ∧ c'.opens = 0 ∧ c'.atDepth d = c' := by
  induction run with
  | refl =>
    rw [Config.atDepth_atDepth, Config.atDepth_atDepth, Config.opens_atDepth]
    exact ⟨.refl, opens, rfl⟩
  | tail _ last ih =>
    obtain ⟨run, opens, same⟩ := ih
    rcases Config.uniform opens with ⟨c'', opens', goes⟩ | halts
    · rw [← same, goes d full] at last
      cases last
      rw [Config.atDepth_atDepth, Config.atDepth_atDepth, Config.opens_atDepth]
      exact ⟨run.tail (goes d' full'), opens', rfl⟩
    · rw [← same] at last
      exact absurd last (halts d full _)

/-! ## Rounds -/

/-- One round of the loop over statements: a statement is read, or its error is recorded and the rest of
it is skipped. -/
def Code.round (inBody : Bool) : Code (Option (Measured Stmt)) :=
  .recovering inBody .statement

/-- Beyond the limit, code looks one token ahead if it does so at the limit. -/
theorem LooksOneAhead.beyond {c : Code α} {s s' : State} {o : Outcome α} (full : maxOpen ≤ s.depth)
    (h : LooksOneAhead c (s.atDepth maxOpen) o s') : LooksOneAhead c s o (s'.atDepth s.depth) where
  reaches := (reaches_atDepth (c := .run c .done s) rfl (Nat.le_refl _) full h.reaches).1
  tokens := h.tokens
  rest := h.rest
  depth := rfl
  errors := h.errors
  again tokens endsOnce agree :=
    (reaches_atDepth (c := .run c .done { s with tokens }) rfl (Nat.le_refl _) full
      (h.again tokens endsOnce agree)).1

/-- A round that starts anywhere, with any count, comes to an end and looks one token ahead. -/
theorem exists_looksOneAhead_round (inBody : Bool) {s : State} (buffer : EndsOnce s.tokens)
    (inside : s.pos < s.tokens.length) :
    ∃ s', LooksOneAhead (.round inBody) s
      ((Parser.statementOrSkip (Parser.expression (maxOpen - s.depth)) inBody).run s.rest) s' := by
  have within {s : State} (valid : s.Valid) := Follows.looksOneAhead
    ((follows_statement (follows_expression (maxOpen - s.depth))).recovering inBody)
    (Parser.looksOneAhead_statementOrSkip (Parser.balanced_expression _) inBody) valid
    (Nat.add_sub_cancel' valid.depth_le)
  rcases Nat.le_total s.depth maxOpen with le | full
  · exact within ⟨buffer, inside, le⟩
  · obtain ⟨s', h⟩ := within (s := s.atDepth maxOpen) ⟨buffer, inside, Nat.le_refl _⟩
    have noRoom : maxOpen - s.depth = maxOpen - maxOpen := by omega
    rw [noRoom]
    exact ⟨s'.atDepth s.depth, h.beyond full⟩

/-- The code, started from `s`, ends with the result in `s'`, and nowhere else. -/
def EndsAt (c : Code α) (s : State) (result : Except ParseError α) (s' : State) : Prop :=
  ∀ other s'', Reaches (.run c (.done : Stack α α) s) (.back other .done s'') ↔
    other = result ∧ s'' = s'

/-- The machine has no choice, so the end that it comes to is the only one. -/
theorem endsAt_of_reaches {c : Code α} {s s' : State} {result : Except ParseError α}
    (reaches : Reaches (.run c .done s) (.back result .done s')) : EndsAt c s result s' := by
  have rightUnique : Relator.RightUnique fun c c' : Config α => step c = .goes c' := by
    intro c c₁ c₂ first second
    exact Next.goes.inj (first.symm.trans second)
  have halts {result : Except ParseError α} {s' : State} {c' : Config α}
      (run : Reaches (.back result .done s') c') : .back result .done s' = c' := by
    rcases ReflTransGen.cases_head run with same | ⟨c'', goes, -⟩
    · exact same
    · exact absurd goes (step_done_ne c'')
  intro other s''
  constructor
  · intro run
    have same : (.back result .done s' : Config α) = .back other .done s'' := by
      rcases ReflTransGen.total_of_right_unique rightUnique reaches run with later | later
      · exact halts later
      · exact (halts later).symm
    cases same
    exact ⟨rfl, rfl⟩
  · rintro ⟨rfl, rfl⟩
    exact reaches

/-- A round ends from wherever in its buffer it starts, whatever the count of open expressions is. It
reads a statement or skips one; the running parser says which, what errors are recorded and which tokens
are left; and the count is what it was. In every other buffer with the same tokens from the start of the
round up to the one in front of which it ends, the round ends in front of the same one, with the same
result, errors and count. -/
theorem round_of_agree (inBody : Bool) {s : State} (buffer : EndsOnce s.tokens)
    (inside : s.pos < s.tokens.length) :
    let o := (Parser.statementOrSkip (Parser.expression (maxOpen - s.depth)) inBody).run s.rest
    ∃ kept s', o.result = .ok kept ∧ EndsAt (.round inBody) s (.ok kept) s' ∧
      s'.tokens = s.tokens ∧ s'.rest = o.rest ∧ s'.depth = s.depth ∧
      s'.errors = s.errors ++ o.recorded ∧
      ∀ tokens, EndsOnce tokens →
        (∀ i, s.pos ≤ i → i ≤ s'.pos → tokens[i]? = s.tokens[i]?) →
          EndsAt (.round inBody) { s with tokens } (.ok kept) { s' with tokens } := by
  intro o
  obtain ⟨kept, value⟩ : ∃ kept, o.result = .ok kept := Parser.total_recovering _ _ _ s.rest
  obtain ⟨s', h⟩ := exists_looksOneAhead_round inBody buffer inside
  refine ⟨kept, s', value, value ▸ endsAt_of_reaches h.reaches, h.tokens, h.rest, h.depth, h.errors,
    fun tokens endsOnce agree => ?_⟩
  exact value ▸ endsAt_of_reaches (h.again tokens endsOnce agree)

/-- The function with a broken body is read in the same way whether or not the `x` behind it is an
expression on its own. -/
theorem round_of_agree_brokenBody :
    EndsOnce (tokenize "fn() \x7b ) \x7d x") ∧ 0 < (tokenize "fn() \x7b ) \x7d x").length ∧
      ∃ kept s', s'.pos = 6 ∧ s'.errors = [.noOperand Kind.closeParen.token] ∧
        EndsAt (.round false) ⟨tokenize "fn() \x7b ) \x7d x", 0, 0, []⟩ (.ok kept) s' ∧
        EndsAt (.round false) ⟨tokenize "fn() \x7b ) \x7d x = 1", 0, 0, []⟩ (.ok kept)
          { s' with tokens := tokenize "fn() \x7b ) \x7d x = 1" } := by
  have valid (text : String) := State.valid_ofSource (Source.ofString text)
  obtain ⟨kept, s', -, ends, tokens, rest, -, errors, again⟩ :=
    round_of_agree false (s := ⟨tokenize "fn() \x7b ) \x7d x", 0, 0, []⟩)
      (valid _).endsOnce (valid _).inside
  have pos : s'.pos = 6 := by
    have total : (tokenize "fn() \x7b ) \x7d x").length = 8 := by decide +kernel
    have left : s'.rest.length = 2 := by
      rw [rest]
      decide +kernel
    rw [State.rest, List.length_drop, tokens, total] at left
    omega
  have agree : ∀ i, i ≤ 6 →
      (tokenize "fn() \x7b ) \x7d x = 1")[i]? = (tokenize "fn() \x7b ) \x7d x")[i]? := by
    decide +kernel
  refine ⟨(valid _).endsOnce, (valid _).inside, kept, s', pos, errors.trans (by decide +kernel), ends,
    again _ (valid _).endsOnce fun i _ le => agree i (pos ▸ le)⟩

end Machine

end MonkeySyntax
