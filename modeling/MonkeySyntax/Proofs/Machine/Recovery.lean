import Mathlib.Order.Bounds.Basic
import MonkeySyntax.Proofs.Machine.Lookahead

/-!
# Where recovery stops

Recovery keeps a count of open braces while it drops tokens. Here it is described without a count.

* `Tokens.opened`, `Tokens.closed` — how many braces tokens open and close.
* `Tokens.EndsStatement` — where a broken statement may end: at the end of the input, or at a `;` or a
  `}` in front of which as many braces have been opened as closed.
* `Tokens.InsideBrace` — behind the tokens, a brace that they open has not been closed yet.
* `resume_stops` — recovery stops at the first place where the statement may end, or behind it.
-/

namespace MonkeySyntax

namespace Tokens

/-- The number of braces that the tokens open. -/
def opened (ts : Tokens) : Nat := ts.countP (·.kind = .openBrace)

/-- The number of braces that the tokens close. -/
def closed (ts : Tokens) : Nat := ts.countP (·.kind = .closeBrace)

/-- The tokens from one index up to another one. -/
def between (start stop : Nat) (ts : Tokens) : Tokens := (ts.drop start).take (stop - start)

/-- A broken statement that starts at the one index may end at the other one. -/
def EndsStatement (ts : Tokens) (start stop : Nat) : Prop :=
  ∃ t, ts[stop]? = some t ∧ (t.kind = .eof ∨
    (t.kind = .semicolon ∨ t.kind = .closeBrace) ∧
      (ts.between start stop).opened = (ts.between start stop).closed)

/-- One of the tokens opens a brace, and those behind it do not close it. -/
def InsideBrace (ts : Tokens) : Prop :=
  ∃ before t behind, ts = before ++ t :: behind ∧ t.kind = .openBrace ∧
    ∀ us : Tokens, us <+: behind → us.closed ≤ us.opened

section

variable {n m : Nat} {t : Token} {ts us rest : Tokens}

/-! ## Counting -/

theorem opened_cons :
    opened (t :: ts) = (if t.kind = .openBrace then 1 else 0) + opened ts := by
  rw [opened, List.countP_cons, Nat.add_comm]
  simp [opened]

theorem closed_cons :
    closed (t :: ts) = (if t.kind = .closeBrace then 1 else 0) + closed ts := by
  rw [closed, List.countP_cons, Nat.add_comm]
  simp [closed]

/-- The level is the difference of the two counts. -/
theorem level_add_closed (h : guardedLevel? n ts = some m) : m + closed ts = n + opened ts := by
  induction ts generalizing n with
  | nil =>
    cases h
    rfl
  | cons t ts ih =>
    rw [guardedLevel?_cons, Option.bind_eq_some_iff] at h
    obtain ⟨k, here, later⟩ := h
    have step : k + (if t.kind = .closeBrace then 1 else 0) =
        n + (if t.kind = .openBrace then 1 else 0) := by
      cases kind : t.kind <;> grind [Kind.guardedLevel?]
    have behind := ih later
    rw [opened_cons, closed_cons]
    omega

/-- Guarded tokens begin with guarded tokens. -/
theorem exists_guardedLevel? (h : guardedLevel? n (ts ++ us) = some m) :
    ∃ k, guardedLevel? n ts = some k ∧ guardedLevel? k us = some m := by
  rw [guardedLevel?_append, Option.bind_eq_some_iff] at h
  exact h

theorem InsideBrace.cons (h : InsideBrace ts) (t : Token) : InsideBrace (t :: ts) := by
  obtain ⟨before, u, behind, rfl, kind, level⟩ := h
  exact ⟨t :: before, u, behind, rfl, kind, level⟩

/-- If braces are open behind the tokens, either those that were open in front of the tokens have not
all been closed on the way, or the tokens have opened one that is still open. -/
theorem open_or_insideBrace (h : closed ts < n + opened ts) :
    (∀ us, us <+: ts → closed us < n + opened us) ∨ InsideBrace ts := by
  induction ts generalizing n with
  | nil =>
    refine .inl fun us start => ?_
    rwa [List.prefix_nil.mp start]
  | cons t ts ih =>
    rw [opened_cons, closed_cons] at h
    -- with `k` braces open behind `t`, none is closed on the way that is not open there
    have outside {k : Nat} (positive : 0 < n) (level : k + (if t.kind = .closeBrace then 1 else 0) =
        n + (if t.kind = .openBrace then 1 else 0))
        (later : ∀ us, us <+: ts → closed us < k + opened us) :
        ∀ us, us <+: t :: ts → closed us < n + opened us := by
      intro us start
      rcases List.prefix_cons_iff.mp start with rfl | ⟨us, rfl, behind⟩
      · exact positive
      · have here := later us behind
        rw [opened_cons, closed_cons]
        omega
    by_cases opens : t.kind = .openBrace
    · simp only [opens, reduceCtorEq, if_true, if_false] at h outside
      rcases ih (n := n + 1) (by omega) with later | inside
      · rcases Nat.eq_zero_or_pos n with rfl | positive
        · exact .inr ⟨[], t, ts, rfl, opens, fun us start => by have := later us start; omega⟩
        · exact .inl (outside positive rfl later)
      · exact .inr (inside.cons t)
    · by_cases closes : t.kind = .closeBrace
      · simp only [closes, reduceCtorEq, if_true, if_false] at h outside
        rcases ih (n := n - 1) (by omega) with later | inside
        · have positive : 0 < n - 1 := later [] List.nil_prefix
          exact .inl (outside (by omega) (by omega) later)
        · exact .inr (inside.cons t)
      · simp only [opens, closes, if_false] at h outside
        rcases ih (n := n) (by omega) with later | inside
        · exact .inl (outside (later [] List.nil_prefix) rfl later)
        · exact .inr (inside.cons t)

/-- If the tokens open more braces than they close, one of these is still open behind them. -/
theorem insideBrace_of_lt (h : closed ts < opened ts) : InsideBrace ts := by
  have level : closed ts < 0 + opened ts := by omega
  rcases open_or_insideBrace level with never | inside
  · exact absurd (never [] List.nil_prefix) (Nat.lt_irrefl 0)
  · exact inside

/-! ## The first place -/

/-- Recovery goes on behind a token that keeps a level. -/
theorem resume_of_some (inBody : Bool) (h : t.kind.guardedLevel? n = some m) (ts : Tokens) :
    resume inBody n (t :: ts) = resume inBody m ts := by
  rw [resume]
  cases kind : t.kind <;> grind [Kind.guardedLevel?]

/-- Recovery stops at a token that keeps none: behind it if it is a `;` or, at top level, a `}`. -/
theorem resume_of_none (inBody : Bool) (h : t.kind.guardedLevel? n = none) (ts : Tokens) :
    resume inBody n (t :: ts) =
      if t.kind = .semicolon ∨ t.kind = .closeBrace ∧ inBody = false then ts else t :: ts := by
  rw [resume]
  cases kind : t.kind <;> grind [Kind.guardedLevel?]

/-- Recovery drops guarded tokens up to the first one that keeps no level. -/
theorem exists_guarded (ends : ∃ u ∈ ts, u.kind = .eof) (n : Nat) :
    ∃ c t rest k, ts = c ++ t :: rest ∧ guardedLevel? n c = some k ∧
      t.kind.guardedLevel? k = none ∧ ∀ inBody, resume inBody n ts = resume inBody k (t :: rest) := by
  induction ts generalizing n with
  | nil =>
    obtain ⟨u, none, -⟩ := ends
    cases none
  | cons t ts ih =>
    cases level : t.kind.guardedLevel? n with
    | none => exact ⟨[], t, ts, n, rfl, rfl, level, fun _ => rfl⟩
    | some m =>
      have later : ∃ u ∈ ts, u.kind = .eof := by
        obtain ⟨u, here, eof⟩ := ends
        rcases List.mem_cons.mp here with rfl | behind
        · rw [eof] at level
          cases level
        · exact ⟨u, behind, eof⟩
      obtain ⟨c, u, rest, k, rfl, guarded, stops, same⟩ := ih later m
      refine ⟨t :: c, u, rest, k, rfl, ?_, stops, fun inBody => ?_⟩
      · rw [guardedLevel?_cons, level]
        exact guarded
      · rw [resume_of_some inBody level, same]

theorem guardedLevel?_eq_none_iff {kind : Kind} : kind.guardedLevel? n = none ↔
    kind = .eof ∨ (kind = .semicolon ∨ kind = .closeBrace) ∧ n = 0 := by
  cases kind <;> simp [Kind.guardedLevel?]

/-- At every place among guarded tokens, as many braces are open as have been opened and not closed, and
the token there keeps a level. -/
theorem guarded_at (h : guardedLevel? 0 ts = some m) (i : Nat) :
    ∃ k, k + closed (ts.take i) = opened (ts.take i) ∧
      ∀ u, ts[i]? = some u → u.kind.guardedLevel? k ≠ none := by
  rw [← List.take_append_drop i ts] at h
  obtain ⟨k, front, behind⟩ := exists_guardedLevel? h
  refine ⟨k, by simpa using level_add_closed front, fun u here => ?_⟩
  rw [← List.head?_drop] at here
  obtain ⟨us, split⟩ := List.head?_eq_some_iff.mp here
  rw [split, guardedLevel?_cons] at behind
  intro none
  rw [none] at behind
  cases behind

end

/-- Recovery from an index of a buffer stops at the first place behind it where the statement may end,
or behind the token there. Up to that place, no more braces are closed than opened, and a `;` stands
inside a brace. -/
theorem resume_drop {ts : Tokens} {start : Nat} (ends : ∃ u ∈ ts.drop start, u.kind = .eof) :
    ∃ stop t, ts[stop]? = some t ∧
      IsLeast {i | start ≤ i ∧ ts.EndsStatement start i} stop ∧
      (∀ inBody, resume inBody 0 (ts.drop start) = ts.drop
        (if t.kind = .semicolon ∨ t.kind = .closeBrace ∧ inBody = false then stop + 1 else stop)) ∧
      (∀ i, start ≤ i → i ≤ stop → (ts.between start i).closed ≤ (ts.between start i).opened) ∧
      ∀ i u, start ≤ i → i < stop → ts[i]? = some u → u.kind = .semicolon →
        (ts.between start i).InsideBrace := by
  obtain ⟨c, t, rest, k, split, guarded, stops, same⟩ := exists_guarded ends 0
  have within {i : Nat} (le : start ≤ i) (before : i ≤ start + c.length) :
      ts.between start i = c.take (i - start) := by
    rw [between, split, List.take_append_of_le_length (by omega)]
  have there {i : Nat} (le : start ≤ i) : ts[i]? = (c ++ t :: rest)[i - start]? := by
    rw [← split, List.getElem?_drop, Nat.add_sub_cancel' le]
  have here : ts[start + c.length]? = some t := by
    rw [there (Nat.le_add_right _ _), Nat.add_sub_cancel_left, List.getElem?_append_right (Nat.le_refl _)]
    simp
  have level := level_add_closed guarded
  have kinds := guardedLevel?_eq_none_iff.mp stops
  refine ⟨start + c.length, t, here, ⟨⟨Nat.le_add_right _ _, t, here, ?_⟩, ?_⟩, ?_, ?_, ?_⟩
  · rw [within (Nat.le_add_right _ _) (Nat.le_refl _), Nat.add_sub_cancel_left, List.take_length]
    exact kinds.imp_right fun ⟨kind, zero⟩ => ⟨kind, by omega⟩
  · rintro i ⟨le, u, token, isEnd⟩
    by_contra before
    rw [Nat.not_le] at before
    obtain ⟨k', level', keeps⟩ := guarded_at guarded (i - start)
    rw [there le, List.getElem?_append_left (by omega)] at token
    rw [within le (Nat.le_of_lt before)] at isEnd
    exact keeps u token (guardedLevel?_eq_none_iff.mpr
      (isEnd.imp_right fun ⟨kind, equal⟩ => ⟨kind, by omega⟩))
  · intro inBody
    rw [same, resume_of_none inBody stops]
    split
    · rw [Nat.add_assoc, ← List.drop_drop, split]
      simp
    · rw [← List.drop_drop, split, List.drop_left]
  · intro i le before
    obtain ⟨k', level', -⟩ := guarded_at guarded (i - start)
    rw [within le before]
    omega
  · intro i u le before token semicolon
    obtain ⟨k', level', keeps⟩ := guarded_at guarded (i - start)
    rw [there le, List.getElem?_append_left (by omega)] at token
    have positive : k' ≠ 0 := by
      rintro rfl
      exact keeps u token (guardedLevel?_eq_none_iff.mpr (.inr ⟨.inl semicolon, rfl⟩))
    rw [within le (Nat.le_of_lt before)]
    exact insideBrace_of_lt (by omega)

end Tokens

namespace Machine

/-! ## The machine -/

variable {s : State}

/-- Moving on to the end of a statement comes to an end from wherever it starts, whatever the count of
open expressions is. -/
theorem exists_reaches_resume (buffer : EndsOnce s.tokens) (inside : s.pos < s.tokens.length)
    (inBody : Bool) :
    ∃ s', Reaches (.run (.resume inBody 0) (.done : Stack Unit Unit) s) (.back (.ok ()) .done s') ∧
      s'.pos < s'.tokens.length ∧ s'.rest = s.rest.resume inBody 0 ∧ s'.tokens = s.tokens ∧
      s'.depth = s.depth ∧ s'.errors = s.errors := by
  have within {s : State} (valid : s.Valid) :
      ∃ s', Reaches (.run (.resume inBody 0) (.done : Stack Unit Unit) s) (.back (.ok ()) .done s') ∧
        s'.pos < s'.tokens.length ∧ s'.rest = s.rest.resume inBody 0 ∧ s'.tokens = s.tokens ∧
        s'.depth = s.depth ∧ s'.errors = s.errors := by
    obtain ⟨s', peaks, after⟩ := leadsTo_resume valid inBody 0 (.done : Stack Unit Unit)
    exact ⟨s', peaks.reaches, after.valid.inside, after.rest, after.tokens, after.depth,
      after.errors.trans (List.append_nil _)⟩
  rcases Nat.le_total s.depth maxOpen with le | full
  · exact within ⟨buffer, inside, le⟩
  · -- beyond the limit, the machine does what it does at the limit
    obtain ⟨s', reaches, inside', rest, tokens, -, errors⟩ :=
      within (s := s.atDepth maxOpen) ⟨buffer, inside, Nat.le_refl _⟩
    have run := reaches_atDepth (c := .run (.resume inBody 0) .done s) rfl (Nat.le_refl _) full reaches
    exact ⟨s'.atDepth s.depth, run.1, inside', rest, tokens, rfl, errors⟩

/-- Recovery drops the tokens of a broken statement. From wherever it starts, it stops at the first
place where the statement may end: behind a `;`, behind a `}` at top level, and in front of a `}` inside
a body or the end of the input. In front of that place, no more braces are closed than opened, and every
`;` stands inside a brace opened on the way. Nothing but the position changes, and the running parser
goes on with the tokens from there. -/
theorem resume_stops (buffer : EndsOnce s.tokens) (inside : s.pos < s.tokens.length) (inBody : Bool) :
    let dropped (i : Nat) : Tokens := Tokens.between s.pos i s.tokens
    ∃ stop t, s.tokens[stop]? = some t ∧
      IsLeast {i | s.pos ≤ i ∧ Tokens.EndsStatement s.tokens s.pos i} stop ∧
      (∃ pos, EndsAt (.resume inBody 0) s (.ok ()) { s with pos } ∧
        s.rest.resume inBody 0 = s.tokens.drop pos ∧
        pos = if t.kind = .semicolon ∨ t.kind = .closeBrace ∧ inBody = false then stop + 1
          else stop) ∧
      (∀ i, s.pos ≤ i → i ≤ stop → (dropped i).closed ≤ (dropped i).opened) ∧
      ∀ i u, s.pos ≤ i → i < stop → s.tokens[i]? = some u → u.kind = .semicolon →
        (dropped i).InsideBrace := by
  intro dropped
  have ends : ∃ u ∈ s.rest, u.kind = .eof := by
    obtain ⟨before, last, split, eof, -⟩ := buffer
    refine ⟨last, ?_, eof⟩
    rw [split, List.length_append, List.length_singleton] at inside
    rw [State.rest, split, List.drop_append_of_le_length (by omega)]
    simp
  obtain ⟨stop, t, here, least, drops, balanced, semicolons⟩ := Tokens.resume_drop ends
  obtain ⟨s', reaches, inside', rest, tokens, depth, errors⟩ :=
    exists_reaches_resume buffer inside inBody
  refine ⟨stop, t, here, least, ⟨_, ?_, drops inBody, rfl⟩, balanced, semicolons⟩
  -- as many tokens are left behind the one place as behind the other
  have left := congrArg List.length (rest.trans (drops inBody))
  rw [State.rest, List.length_drop, List.length_drop, tokens] at left
  rw [tokens] at inside'
  have same : s' = { s with pos := s'.pos } := by
    obtain ⟨_, pos', _, _⟩ := s'
    simp_all
  have place : s'.pos = if t.kind = .semicolon ∨ t.kind = .closeBrace ∧ inBody = false then stop + 1
      else stop := by
    omega
  rw [← place, ← same]
  exact endsAt_of_reaches reaches

/-- Inside a body, recovery passes over matched braces and what stands in them, and stops in front of
the brace that closes the body. -/
theorem resume_stops_nestedBraces :
    let tokens := tokenize "\x7b ; \x7b ; \x7d \x7d \x7d x ;"
    EndsOnce tokens ∧ 0 < tokens.length ∧
      EndsAt (.resume true 0) ⟨tokens, 0, 3, []⟩ (.ok ()) ⟨tokens, 6, 3, []⟩ := by
  intro tokens
  have valid : (State.mk tokens 0 0 []).Valid := State.valid_ofSource (Source.ofString _)
  obtain ⟨-, -, -, -, ⟨pos, ends, drops, -⟩, -⟩ :=
    resume_stops (s := ⟨tokens, 0, 3, []⟩) valid.endsOnce valid.inside true
  have total : tokens.length = 10 := by decide +kernel
  have left : (Tokens.resume true 0 tokens).length = 4 := by decide +kernel
  have place : pos = 6 := by
    have same := congrArg List.length drops
    rw [State.rest, List.drop_zero, left, List.length_drop] at same
    simp only [total] at same
    omega
  exact ⟨valid.endsOnce, valid.inside, place ▸ ends⟩

end Machine

end MonkeySyntax
