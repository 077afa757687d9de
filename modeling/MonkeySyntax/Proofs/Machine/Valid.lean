import MonkeySyntax.Proofs.Machine.Step

/-!
# What every step keeps

* `State.Valid` — the buffer ends with its only end of the input, the position is in it, and at most
  `maxOpen` expressions are open.
* `Config.Valid` — besides, the count of open expressions is the number of those that are waiting on
  the stack to be closed (`Stack.opens`). That is why it never falls below zero.

Every step keeps a configuration valid (`Config.Valid.step`), and so does every run
(`Config.Valid.reaches`). A valid configuration does not break down.
-/

namespace MonkeySyntax.Machine

/-! ## Valid states -/

/-- The tokens end with an end of the input, and there is no other among them. -/
def EndsOnce (ts : Tokens) : Prop :=
  ∃ before t, ts = before ++ [t] ∧ t.kind = .eof ∧ ∀ u ∈ before, u.kind ≠ .eof

theorem EndsOnce.cons {t : Token} {ts : Tokens} (h : EndsOnce (t :: ts)) :
    (t.kind = .eof ∧ ts = []) ∨ (t.kind ≠ .eof ∧ EndsOnce ts) := by
  obtain ⟨before, last, split, eof, others⟩ := h
  cases before with
  | nil =>
    obtain ⟨rfl, rfl⟩ := List.cons.inj split
    exact .inl ⟨eof, rfl⟩
  | cons u before =>
    obtain ⟨rfl, rfl⟩ := List.cons.inj split
    rw [List.forall_mem_cons] at others
    exact .inr ⟨others.1, before, last, rfl, eof, others.2⟩

theorem EndsOnce.suffix {ts rest : Tokens} (h : EndsOnce ts) (further : rest <:+ ts)
    (nonempty : rest ≠ []) : EndsOnce rest := by
  induction ts with
  | nil => exact absurd (List.suffix_nil.mp further) nonempty
  | cons t ts ih =>
    rcases List.suffix_cons_iff.mp further with rfl | further
    · exact h
    · rcases h.cons with ⟨-, rfl⟩ | ⟨-, later⟩
      · exact absurd (List.suffix_nil.mp further) nonempty
      · exact ih later further

namespace State

/-- The tokens from the position on. -/
def rest (s : State) : Tokens := s.tokens.drop s.pos

/-- The buffer ends with its only end of the input, the position is in the buffer, and the count is
within its limit. -/
structure Valid (s : State) : Prop where
  endsOnce : EndsOnce s.tokens
  inside : s.pos < s.tokens.length
  depth_le : s.depth ≤ maxOpen

/-- The state behind the current token, as it is if the position is in the buffer. -/
def behind (s : State) : State :=
  if s.rest.current.kind = .eof then s else { s with pos := s.pos + 1 }

variable {s : State}

theorem pos_le_behind : s.pos ≤ s.behind.pos := by
  unfold behind
  split <;> simp

theorem depth_behind : s.behind.depth = s.depth := by
  unfold behind
  split <;> rfl

theorem tokens_behind : s.behind.tokens = s.tokens := by
  unfold behind
  split <;> rfl

theorem errors_behind : s.behind.errors = s.errors := by
  unfold behind
  split <;> rfl

/-- Where the position is in the buffer, there is a token at it. -/
theorem Valid.exists_rest (h : s.Valid) : ∃ t ts, s.rest = t :: ts ∧ s.tokenAt s.pos = .ok t ∧
    ((t.kind = .eof ∧ ts = []) ∨ (t.kind ≠ .eof ∧ EndsOnce ts)) := by
  cases hr : s.rest with
  | nil => exact absurd (List.drop_eq_nil_iff.mp hr) (Nat.not_le.mpr h.inside)
  | cons t ts =>
    have front : s.tokens[s.pos]? = some t := by
      rw [← List.head?_drop]
      show s.rest.head? = some t
      simp [hr]
    have further : t :: ts <:+ s.tokens := hr ▸ List.drop_suffix _ _
    exact ⟨t, ts, rfl, by simp [tokenAt, front], (h.endsOnce.suffix further (by simp)).cons⟩

theorem Valid.current_eq (h : s.Valid) : s.current = .ok s.rest.current := by
  obtain ⟨t, ts, rest, front, -⟩ := h.exists_rest
  rw [rest]
  exact front

theorem Valid.advance_eq (h : s.Valid) : s.advance = .ok s.behind := by
  rw [advance, h.current_eq]
  rfl

theorem behind_of_eof (h : s.rest.current.kind = .eof) : s.behind = s :=
  if_pos h

theorem behind_of_ne (h : s.rest.current.kind ≠ .eof) :
    s.behind = { s with pos := s.pos + 1 } :=
  if_neg h

theorem Valid.rest_behind (h : s.Valid) : s.behind.rest = s.rest.advance := by
  obtain ⟨t, ts, front, -⟩ := h.exists_rest
  by_cases eof : t.kind = .eof
  · rw [behind_of_eof (by rw [front]; exact eof), front, Tokens.advance, if_pos eof]
  · rw [behind_of_ne (by rw [front]; exact eof), front, Tokens.advance, if_neg eof]
    show s.tokens.drop (s.pos + 1) = ts
    rw [← List.tail_drop]
    show s.rest.tail = ts
    rw [front, List.tail_cons]

/-- Behind a token that does not end the input there is another one. -/
theorem Valid.behind (h : s.Valid) : s.behind.Valid := by
  obtain ⟨t, ts, front, -, ⟨eof, -⟩ | ⟨notEof, later⟩⟩ := h.exists_rest
  · rwa [behind_of_eof (by rw [front]; exact eof)]
  · have more : s.behind.rest ≠ [] := by
      obtain ⟨before, last, rfl, -⟩ := later
      simp [h.rest_behind, front, Tokens.advance, notEof]
    refine ⟨?_, ?_, ?_⟩
    · rw [tokens_behind]
      exact h.endsOnce
    · exact Nat.lt_of_not_le fun outside => more (List.drop_eq_nil_of_le outside)
    · rw [depth_behind]
      exact h.depth_le

theorem Valid.following_eq (h : s.Valid) : s.following = .ok s.rest.following := by
  have here : s.following = if s.rest.current.kind = .eof then .ok s.rest.current
      else s.tokenAt (s.pos + 1) := by
    rw [following, h.current_eq]
    rfl
  obtain ⟨t, ts, front, -⟩ := h.exists_rest
  by_cases eof : t.kind = .eof
  · rw [here, front, Tokens.current, Tokens.following, if_pos eof, if_pos eof]
  · have next := h.behind.current_eq
    rw [h.rest_behind, behind_of_ne (by rw [front]; exact eof), front, Tokens.advance,
      if_neg eof] at next
    rw [here, front, Tokens.current, Tokens.following, if_neg eof, if_neg eof]
    exact next

end State

/-! ## Valid configurations -/

/-- The state is valid, and as many expressions are open as are waiting to be closed. -/
structure Config.Valid {ρ : Type} (c : Config ρ) : Prop where
  state : c.state.Valid
  depth_eq : c.state.depth = c.opens

section

variable {ρ : Type}

/-- The step leads to a valid configuration, in which the position is no smaller. -/
def Next.Keeps (s : State) (next : Next ρ) : Prop :=
  ∃ c : Config ρ, next = .goes c ∧ c.Valid ∧ s.pos ≤ c.state.pos

/-- A step that leaves the position where it is. -/
theorem Next.keeps_goes {c : Config ρ} (h : c.Valid) : (Next.goes c).Keeps c.state :=
  ⟨c, rfl, h, Nat.le_refl _⟩

/-- A step that takes the current token. -/
theorem Next.keeps_advance {s : State} (h : s.Valid) {next : State → Config ρ}
    (state : (next s.behind).state = s.behind) (opens : (next s.behind).opens = s.depth) :
    (Next.after s.advance next).Keeps s := by
  refine ⟨next s.behind, by rw [h.advance_eq]; rfl, ⟨?_, ?_⟩, ?_⟩
  · rw [state]
    exact h.behind
  · rw [state, opens, State.depth_behind]
  · rw [state]
    exact State.pos_le_behind

theorem keeps_stepResume {inBody : Bool} {braces : Nat} {k : Stack ρ Unit} {s : State}
    (h : s.Valid) (depth : s.depth = k.opens) (kind : Kind) :
    (stepResume inBody braces k s kind).Keeps s := by
  have stays : (Next.goes (.back (.ok ()) k s)).Keeps s := Next.keeps_goes ⟨h, depth⟩
  cases kind with
  | eof => exact stays
  | semicolon =>
    by_cases zero : braces = 0
    · rw [stepResume]
      simp only [zero, if_true]
      exact Next.keeps_advance h rfl depth.symm
    · rw [stepResume]
      simp only [zero, if_false]
      exact Next.keeps_advance h rfl depth.symm
  | closeBrace =>
    rw [stepResume]
    split
    · rename_i some
      obtain ⟨n, rfl⟩ := Nat.exists_eq_add_of_lt some
      exact Next.keeps_advance h rfl depth.symm
    · split
      · exact stays
      · exact Next.keeps_advance h rfl depth.symm
  | _ => exact Next.keeps_advance h rfl depth.symm

theorem keeps_stepRun {α : Type} (c : Code α) {k : Stack ρ α} {s : State} (h : s.Valid)
    (depth : s.depth = k.opens) : (stepRun c k s).Keeps s := by
  cases c with
  | give a => exact Next.keeps_goes (c := .back (.ok a) k s) ⟨h, depth⟩
  | fail e => exact Next.keeps_goes (c := .back (.error e) k s) ⟨h, depth⟩
  | branch first ok failed =>
    exact Next.keeps_goes (c := .run first (.branch ok failed k) s) ⟨h, depth⟩
  | current =>
    rw [stepRun, h.current_eq]
    exact Next.keeps_goes (c := .back (.ok s.rest.current) k s) ⟨h, depth⟩
  | following =>
    rw [stepRun, h.following_eq]
    exact Next.keeps_goes (c := .back (.ok s.rest.following) k s) ⟨h, depth⟩
  | advance => exact Next.keeps_advance h rfl depth.symm
  | record e =>
    have recorded : State.Valid { s with errors := s.errors ++ [e] } :=
      ⟨h.endsOnce, h.inside, h.depth_le⟩
    exact ⟨_, rfl, ⟨recorded, depth⟩, Nat.le_refl _⟩
  | resume inBody braces =>
    rw [stepRun, h.current_eq]
    exact keeps_stepResume h depth _
  | repeatWhile continues round a =>
    rw [stepRun, h.current_eq, Next.after]
    split
    · exact Next.keeps_goes (c := .run (round a) (.again continues round k) s) ⟨h, depth⟩
    · exact Next.keeps_goes (c := .back (.ok a) k s) ⟨h, depth⟩
  | expression min =>
    rw [stepRun]
    split
    · exact Next.keeps_goes (c := .back (.error _) k s) ⟨h, depth⟩
    · rename_i room
      have opened : State.Valid { s with depth := s.depth + 1 } :=
        ⟨h.endsOnce, h.inside, Nat.lt_of_not_le room⟩
      exact ⟨_, rfl, ⟨opened, congrArg (· + 1) depth⟩, Nat.le_refl _⟩

theorem keeps_stepBack {α : Type} (result : Except ParseError α) {k : Stack ρ α} {s : State}
    (h : s.Valid) (depth : s.depth = k.opens) :
    stepBack result k s = .ends ∨ (stepBack result k s).Keeps s := by
  cases k with
  | done => exact .inl rfl
  | branch ok failed k =>
    cases result with
    | ok a => exact .inr (Next.keeps_goes (c := .run (ok a) k s) ⟨h, depth⟩)
    | error e => exact .inr (Next.keeps_goes (c := .run (failed e) k s) ⟨h, depth⟩)
  | again continues round k =>
    cases result with
    | ok a =>
      exact .inr (Next.keeps_goes (c := .run (.repeatWhile continues round a) k s) ⟨h, depth⟩)
    | error e => exact .inr (Next.keeps_goes (c := .back (.error e) k s) ⟨h, depth⟩)
  | close k =>
    -- the expression that is closed has been counted
    have closed : State.Valid { s with depth := k.opens } := by
      refine ⟨h.endsOnce, h.inside, Nat.le_of_lt ?_⟩
      exact Nat.lt_of_lt_of_le (depth ▸ Nat.lt_succ_self k.opens) h.depth_le
    have lowered : lower s.depth = .ok k.opens := by
      rw [depth]
      rfl
    refine .inr ⟨.back result k { s with depth := k.opens }, ?_, ⟨closed, rfl⟩, Nat.le_refl _⟩
    rw [stepBack, lowered]
    rfl

/-- A valid configuration is done, or it goes on to a valid one and does not go back in the buffer. In
particular it does not break down. -/
theorem Config.Valid.step {c : Config ρ} (h : c.Valid) :
    Machine.step c = .ends ∨ (Machine.step c).Keeps c.state := by
  cases c with
  | run code k s => exact .inr (keeps_stepRun code h.state h.depth_eq)
  | back result k s => exact keeps_stepBack result h.state h.depth_eq

/-- A valid configuration leads to valid ones only. -/
theorem Config.Valid.reaches {c c' : Config ρ} (h : c.Valid) (run : Reaches c c') :
    c'.Valid ∧ c.state.pos ≤ c'.state.pos := by
  induction run with
  | refl => exact ⟨h, Nat.le_refl _⟩
  | tail _ last ih =>
    obtain ⟨valid, le⟩ := ih
    rcases valid.step with ends | ⟨c'', goes, valid', le'⟩
    · rw [last] at ends
      cases ends
    · rw [last] at goes
      cases goes
      exact ⟨valid', Nat.le_trans le le'⟩

end

end MonkeySyntax.Machine
