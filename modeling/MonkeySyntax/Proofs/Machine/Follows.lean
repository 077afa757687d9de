import MonkeySyntax.Proofs.Machine.Valid
import MonkeySyntax.Proofs.Parser.Rules

/-!
# The machine does what the parsers do

Code follows a parser (`Follows`) if running it always ends, in the value or the error of the parser,
behind the tokens that the parser drops, with the errors that it records, and with as many expressions
open as at the start. How many more may be opened is the room that the parser has been given, and how
many more are open at most on the way (`Peaks`) is its reach.

There is one lemma for each way of making parsers, then one for each rule, and from these
`follows_expression` by induction on the room.
-/

namespace MonkeySyntax.Machine

open Relation (ReflTransGen)

variable {α β σ ρ : Type}

/-! ## From state to state -/

/-- The machine has come to `rest` and has recorded further errors; its count is what it was. -/
structure State.After (s : State) (recorded : List ParseError) (rest : Tokens) (s' : State) :
    Prop where
  valid : s'.Valid
  tokens : s'.tokens = s.tokens
  rest : s'.rest = rest
  depth : s'.depth = s.depth
  errors : s'.errors = s.errors ++ recorded

namespace State.After

variable {s s' s'' : State} {recorded recorded' : List ParseError} {rest rest' : Tokens}

theorem refl (h : s.Valid) : s.After [] s.rest s :=
  ⟨h, rfl, rfl, rfl, (List.append_nil _).symm⟩

theorem trans (first : s.After recorded rest s') (second : s'.After recorded' rest' s'') :
    s.After (recorded ++ recorded') rest' s'' where
  valid := second.valid
  tokens := second.tokens.trans first.tokens
  rest := second.rest
  depth := second.depth.trans first.depth
  errors := by rw [second.errors, first.errors, List.append_assoc]

theorem behind (h : s.Valid) : s.After [] s.rest.advance s.behind :=
  ⟨h.behind, tokens_behind, h.rest_behind, depth_behind, by simp [errors_behind]⟩

theorem record (h : s.Valid) (e : ParseError) :
    s.After [e] s.rest { s with errors := s.errors ++ [e] } :=
  ⟨⟨h.endsOnce, h.inside, h.depth_le⟩, rfl, rfl, rfl, rfl⟩

end State.After

/-- One configuration leads to the other. On the way, as many expressions as `n` are open somewhere,
and nowhere more. -/
inductive Peaks : Nat → Config ρ → Config ρ → Prop
  | refl (c : Config ρ) : Peaks c.state.depth c c
  | cons {n : Nat} {c c' c'' : Config ρ} : step c = .goes c' → Peaks n c' c'' →
    Peaks (max c.state.depth n) c c''

namespace Peaks

variable {n m : Nat} {c c' c'' : Config ρ}

theorem reaches (h : Peaks n c c') : Reaches c c' := by
  induction h with
  | refl => exact .refl
  | cons first _ ih => exact .head first ih

theorem head (first : step c = .goes c') (le : c.state.depth ≤ n) (later : Peaks n c' c'') :
    Peaks n c c'' := by
  have whole := Peaks.cons first later
  rwa [Nat.max_eq_right le] at whole

theorem start_le (h : Peaks n c c') : c.state.depth ≤ n := by
  cases h with
  | refl => exact Nat.le_refl _
  | cons _ _ => exact Nat.le_max_left _ _

theorem end_le (h : Peaks n c c') : c'.state.depth ≤ n := by
  induction h with
  | refl => exact Nat.le_refl _
  | cons _ _ ih => exact Nat.le_trans ih (Nat.le_max_right _ _)

theorem trans (first : Peaks n c c') (later : Peaks m c' c'') : Peaks (max n m) c c'' := by
  induction first with
  | refl c => rwa [Nat.max_eq_right later.start_le]
  | cons goes _ ih =>
    rw [Nat.max_assoc]
    exact .cons goes (ih later)

theorem single (goes : step c = .goes c') (le : c'.state.depth ≤ c.state.depth) :
    Peaks c.state.depth c c' := by
  have whole := Peaks.cons goes (.refl c')
  rwa [Nat.max_eq_left le] at whole

theorem append (first : Peaks n c c') (le : m ≤ n) (later : Peaks m c' c'') : Peaks n c c'' := by
  have whole := first.trans later
  rwa [Nat.max_eq_left le] at whole

theorem tail (first : Peaks n c c') (last : step c' = .goes c'')
    (le : c''.state.depth ≤ c'.state.depth) : Peaks n c c'' :=
  first.append first.end_le (single last le)

end Peaks

/-- From the state, running the code ends in the outcome, and on the way so many more expressions are
open at most as the outcome says. -/
def LeadsTo (c : Code α) (k : Stack ρ α) (s : State) (o : Outcome α) : Prop :=
  ∃ s', Peaks (s.depth + o.reach) (.run c k s) (.back o.result k s') ∧
    s.After o.recorded o.rest s'

/-- Code that has come to its end after one step. -/
theorem LeadsTo.single {c : Code α} {k : Stack ρ α} {s s' : State} {o : Outcome α}
    (goes : step (.run c k s) = .goes (.back o.result k s')) (after : s.After o.recorded o.rest s')
    (reach : o.reach = 0) : LeadsTo c k s o := by
  refine ⟨s', ?_, after⟩
  rw [reach]
  exact .single goes (Nat.le_of_eq after.depth)

/-- In every state in which `room` more expressions may be opened, the code does what the parser
does. -/
def Follows (room : Nat) (c : Code α) (p : Parser α) : Prop :=
  ∀ (ρ : Type) (k : Stack ρ α) (s : State), s.Valid → s.depth + room = maxOpen →
    LeadsTo c k s (p.run s.rest)

theorem reaches_step {c c' c'' : Config ρ} (first : step c = .goes c') (later : Reaches c' c'') :
    Reaches c c'' :=
  ReflTransGen.head first later

/-- Once the first part of a sequence has ended with a value, the second part runs. -/
theorem reaches_bind {c : Code α} {next : α → Code β} {k : Stack ρ β} {s s' : State} {a : α}
    {c' : Config ρ}
    (first : Reaches (.run c (.branch next .fail k) s) (.back (.ok a) (.branch next .fail k) s'))
    (later : Reaches (.run (next a) k s') c') : Reaches (.run (c >>= next) k s) c' :=
  reaches_step rfl (first.trans (reaches_step rfl later))

/-! ## Building blocks -/

/-- Drop the current token, unless it is the end of the input. -/
def dropCurrent : Parser Unit where
  run ts := ⟨.ok (), [], ts.advance, 0⟩
  rest_suffix := Tokens.advance_suffix

theorem expect_eq_dropCurrent (kind : Kind) : Parser.expect kind = (do
    let t ← Parser.current
    if t.kind = kind then
      dropCurrent
      return t
    else
      Parser.fail (.unexpected kind t)) := by
  ext ts
  rw [Parser.run_current_bind, Parser.run_expect]
  split <;> rfl

theorem skip_eq_dropCurrent (kind : Kind) : Parser.skip kind = (do
    let t ← Parser.current
    if t.kind = kind then dropCurrent else return ()) := by
  ext ts
  rw [Parser.run_current_bind, Parser.run_skip, Tokens.skipping]
  split <;> rfl

section

variable {room : Nat} {k : Stack ρ α} {s : State}

theorem follows_pure (a : α) : Follows room (pure a) (pure a) := by
  intro ρ k s valid _
  exact .single rfl (.refl valid) rfl

theorem follows_fail (e : ParseError) : Follows room (.fail e : Code α) (Parser.fail e) := by
  intro ρ k s valid _
  exact .single rfl (.refl valid) rfl

theorem follows_current : Follows room .current Parser.current := by
  intro ρ k s valid _
  refine .single ?_ (.refl valid) rfl
  rw [step, stepRun, valid.current_eq]
  rfl

theorem follows_following : Follows room .following Parser.following := by
  intro ρ k s valid _
  refine .single ?_ (.refl valid) rfl
  rw [step, stepRun, valid.following_eq]
  rfl

theorem step_advance (valid : s.Valid) (k : Stack ρ Unit) :
    step (.run .advance k s) = .goes (.back (.ok ()) k s.behind) := by
  rw [step, stepRun, valid.advance_eq]
  rfl

/-- A sequence follows a sequence. -/
theorem Follows.bind {c : Code α} {p : Parser α} {next : α → Code β} {next' : α → Parser β}
    (first : Follows room c p) (second : ∀ a, Follows room (next a) (next' a)) :
    Follows room (c >>= next) (p >>= next') := by
  intro ρ k s valid depth
  obtain ⟨s₁, peaks, after⟩ := first ρ (.branch next .fail k) s valid depth
  rw [Parser.run_bind]
  cases outcome : p.run s.rest with
  | mk result recorded rest reach =>
    rw [outcome] at peaks after
    cases result with
    | error e =>
      refine ⟨s₁, .head rfl (Nat.le_add_right _ _) ?_, after⟩
      exact (peaks.tail rfl (Nat.le_refl _)).tail rfl (Nat.le_refl _)
    | ok a =>
      have depth₁ : s₁.depth + room = maxOpen := after.depth ▸ depth
      obtain ⟨s₂, peaks', after'⟩ := second a ρ k s₁ after.valid depth₁
      rw [after.rest] at peaks' after'
      refine ⟨s₂, .head rfl (Nat.le_add_right _ _) ?_, after.trans after'⟩
      have whole := (peaks.tail rfl (Nat.le_refl _)).trans peaks'
      rwa [after.depth, Nat.add_max_add_left] at whole

theorem follows_advance : Follows room .advance dropCurrent := by
  intro ρ k s valid _
  exact .single (step_advance valid k) (.behind valid) rfl

theorem follows_expect (kind : Kind) : Follows room (.expect kind) (Parser.expect kind) := by
  rw [expect_eq_dropCurrent]
  apply follows_current.bind
  intro t
  split
  · exact follows_advance.bind fun _ => follows_pure t
  · exact follows_fail _

theorem follows_skip (kind : Kind) : Follows room (.skip kind) (Parser.skip kind) := by
  rw [skip_eq_dropCurrent]
  apply follows_current.bind
  intro t
  split
  · exact follows_advance
  · exact follows_pure ()

theorem follows_above (height : Nat) : Follows room (.above height) (Parser.above height) := by
  unfold Code.above Parser.above
  split
  · exact follows_fail _
  · exact follows_pure _

/-- A loop follows a loop. -/
theorem Follows.repeatWhile {continues : Kind → Bool} {round : σ → Code σ} {item : σ → Parser σ}
    {progress : ∀ a, (item a).Progresses continues} (h : ∀ a, Follows room (round a) (item a))
    (a : σ) : Follows room (.repeatWhile continues round a)
      (Parser.loop continues item progress a) := by
  intro ρ k s valid depth
  -- the induction is on the tokens that are left, of which every round drops one
  induction hn : s.rest.length using Nat.strongRecOn generalizing a s with
  | ind n ih =>
    have first : step (.run (.repeatWhile continues round a) k s) =
        .goes (if continues s.rest.current.kind then
          .run (round a) (.again continues round k) s else .back (.ok a) k s) := by
      rw [step, stepRun, valid.current_eq]
      rfl
    rw [Parser.run_loop]
    cases goesOn : continues s.rest.current.kind with
    | false =>
      rw [goesOn] at first
      exact .single first (.refl valid) rfl
    | true =>
      rw [goesOn] at first
      obtain ⟨s₁, peaks, after⟩ := h a ρ (.again continues round k) s valid depth
      rw [if_pos rfl, Parser.run_bind]
      have shorter := progress a s.rest
      cases outcome : (item a).run s.rest with
      | mk result recorded rest reach =>
        rw [outcome] at peaks after shorter
        cases result with
        | error e =>
          exact ⟨s₁, .head first (Nat.le_add_right _ _) (peaks.tail rfl (Nat.le_refl _)), after⟩
        | ok a' =>
          have less : s₁.rest.length < n := by
            rw [after.rest, ← hn]
            exact shorter a' goesOn rfl
          have depth₁ : s₁.depth + room = maxOpen := after.depth ▸ depth
          obtain ⟨s₂, peaks', after'⟩ := ih _ less a' s₁ after.valid depth₁ rfl
          rw [after.rest] at peaks' after'
          refine ⟨s₂, .head first (Nat.le_add_right _ _) ?_, after.trans after'⟩
          have whole := (peaks.tail rfl (Nat.le_refl _)).trans peaks'
          rwa [after.depth, Nat.add_max_add_left] at whole

theorem Follows.collect {continues : Kind → Bool} {c : Code α} {item : Parser α}
    {progress : item.Progresses continues} (h : Follows room c item) :
    Follows room (.collect continues c) (Parser.collect continues item progress) := by
  apply Follows.bind
  · apply Follows.repeatWhile
    intro seen
    exact h.bind fun a => follows_pure _
  · intro latestFirst
    exact follows_pure _

/-! ## Recovering -/

theorem step_resume (valid : s.Valid) (inBody : Bool) (braces : Nat) (k : Stack ρ Unit) :
    step (.run (.resume inBody braces) k s) = stepResume inBody braces k s s.rest.current.kind := by
  rw [step, stepRun, valid.current_eq]

/-- Moving on to the end of a statement ends where reading resumes. -/
theorem leadsTo_resume (valid : s.Valid) (inBody : Bool) (braces : Nat) (k : Stack ρ Unit) :
    LeadsTo (.resume inBody braces) k s ⟨.ok (), [], Tokens.resume inBody braces s.rest, 0⟩ := by
  induction hr : s.rest generalizing s braces with
  | nil =>
    obtain ⟨t, ts, front, -⟩ := valid.exists_rest
    cases hr.symm.trans front
  | cons t ts ih =>
    have first := step_resume valid inBody braces k
    rw [hr, Tokens.current_cons] at first
    have stays (here : step (.run (.resume inBody braces) k s) = .goes (.back (.ok ()) k s)) :
        LeadsTo (.resume inBody braces) k s ⟨.ok (), [], t :: ts, 0⟩ :=
      .single here (hr ▸ .refl valid) rfl
    by_cases eof : t.kind = .eof
    · rw [eof] at first
      rw [Tokens.resume, eof]
      exact stays first
    · -- the machine either ends behind the token, or goes on there with `n` open braces
      have behind : s.After [] ts s.behind := by
        simpa [hr, Tokens.advance, eof] using State.After.behind valid
      have ends (here : step (.run (.resume inBody braces) k s) =
          .goes (.back (.ok ()) k s.behind)) :
          LeadsTo (.resume inBody braces) k s ⟨.ok (), [], ts, 0⟩ :=
        .single here behind rfl
      have later {n : Nat} (here : step (.run (.resume inBody braces) k s) =
          .goes (.run (.resume inBody n) k s.behind)) :
          LeadsTo (.resume inBody braces) k s ⟨.ok (), [], Tokens.resume inBody n ts, 0⟩ := by
        obtain ⟨s', peaks, after⟩ := ih behind.valid n behind.rest
        rw [behind.depth] at peaks
        exact ⟨s', .head here (Nat.le_refl _) peaks, behind.trans after⟩
      have moves (next : State → Config ρ) : Next.after s.advance next = .goes (next s.behind) := by
        rw [valid.advance_eq]
        rfl
      rw [Tokens.resume]
      cases kind : t.kind with
      | eof => exact absurd kind eof
      | semicolon =>
        rw [kind] at first
        cases braces with
        | zero => exact ends (first.trans (moves _))
        | succ n => exact later (first.trans (moves _))
      | closeBrace =>
        rw [kind, stepResume] at first
        cases braces with
        | zero =>
          cases inBody with
          | true => exact stays first
          | false => exact ends (first.trans (moves _))
        | succ n => exact later (first.trans (moves _))
      | _ =>
        rw [kind] at first
        exact later (first.trans (moves _))

/-- Recovering follows recovering. -/
theorem Follows.recovering {c : Code α} {p : Parser α} (h : Follows room c p) (inBody : Bool) :
    Follows room (.recovering inBody c)
      (p.recovering (Tokens.resume inBody 0) (Tokens.resume_suffix inBody 0)) := by
  intro ρ k s valid depth
  obtain ⟨s₁, peaks, after⟩ := h ρ (.branch _ _ k) s valid depth
  unfold Parser.recovering
  dsimp only
  cases outcome : p.run s.rest with
  | mk result recorded rest reach =>
    rw [outcome] at peaks after
    have level : s₁.depth ≤ s.depth + reach := after.depth ▸ Nat.le_add_right _ _
    cases result with
    | ok a =>
      dsimp only
      refine ⟨s₁, .head rfl (Nat.le_add_right _ _) (peaks.append level ?_), after⟩
      exact .head rfl (Nat.le_refl _)
        (.head rfl (Nat.le_refl _) (.refl (.back (.ok (some a)) k s₁)))
    | error e =>
      -- the error is recorded in front of what is dropped
      have recorded := State.After.record after.valid e
      obtain ⟨s₂, peaks', after'⟩ := leadsTo_resume recorded.valid inBody 0 (.branch _ _ k)
      rw [recorded.rest, after.rest] at after'
      dsimp only
      refine ⟨s₂, .head rfl (Nat.le_add_right _ _) (peaks.append level ?_), ?_⟩
      · have le := Nat.le_refl s₁.depth
        refine .head rfl le (.head rfl le (.head rfl le (.head rfl le (.head rfl le ?_))))
        have here : s₂.depth ≤ s₁.depth := Nat.le_of_eq after'.depth
        exact peaks'.append here
          (.head rfl (Nat.le_refl _) (.head rfl (Nat.le_refl _) (.refl (.back (.ok none) k s₂))))
      · simpa using after.trans (recorded.trans after')

end

end MonkeySyntax.Machine
