import MonkeySyntax.Parser.Recovery

/-!
# Braces

Three ways of counting open braces along a list of tokens.

* `braceLevel` is the static count: a `}` without its `{` leaves it at zero.
* `strictLevel?` is the count as long as there is no such `}`.
* `guardedLevel?` is the count as long as nothing on the way could end a statement, which a `;` or a
  `}` outside braces opened since would. Where two of the counts are defined they agree.

`resume` is described in terms of them: at top level it stops where the static count allows a statement
to end, and inside a body it stays within the body. Where no brace is closed that is not open, it stops
at the same places in both.
-/

namespace MonkeySyntax

/-- The number of open braces behind a token, if so many are open in front of it. -/
def Kind.braceLevel (level : Nat) : Kind → Nat
  | .openBrace => level + 1
  | .closeBrace => level - 1
  | _ => level

/-- The same, unless the token closes a brace that is not open. -/
def Kind.strictLevel? (level : Nat) : Kind → Option Nat
  | .openBrace => some (level + 1)
  | .closeBrace => if level = 0 then none else some (level - 1)
  | _ => some level

/-- The same, unless the token ends the input or could end a statement in which so many braces are
open. -/
def Kind.guardedLevel? (level : Nat) : Kind → Option Nat
  | .eof => none
  | .semicolon => if level = 0 then none else some level
  | .openBrace => some (level + 1)
  | .closeBrace => if level = 0 then none else some (level - 1)
  | _ => some level

namespace Tokens

/-- The number of open braces behind the tokens, if so many are open in front of them. -/
def braceLevel (level : Nat) (ts : Tokens) : Nat :=
  ts.foldl (fun level t => t.kind.braceLevel level) level

/-- The same, unless one of the tokens closes a brace that is not open. -/
def strictLevel? (level : Nat) (ts : Tokens) : Option Nat :=
  ts.foldlM (fun level t => t.kind.strictLevel? level) level

/-- The same, unless the end of the input or the end of a statement is among the tokens. -/
def guardedLevel? (level : Nat) (ts : Tokens) : Option Nat :=
  ts.foldlM (fun level t => t.kind.guardedLevel? level) level

section

variable {n m : Nat} {t : Token} {ts us : Tokens}

theorem braceLevel_cons : braceLevel n (t :: ts) = braceLevel (t.kind.braceLevel n) ts := rfl

theorem braceLevel_append : braceLevel n (ts ++ us) = braceLevel (braceLevel n ts) us :=
  List.foldl_append

theorem guardedLevel?_cons :
    guardedLevel? n (t :: ts) = (t.kind.guardedLevel? n).bind fun m => guardedLevel? m ts := rfl

theorem guardedLevel?_append :
    guardedLevel? n (ts ++ us) = (guardedLevel? n ts).bind fun m => guardedLevel? m us :=
  List.foldlM_append

theorem braceLevel_of_guardedLevel? (h : guardedLevel? n ts = some m) : braceLevel n ts = m := by
  induction ts generalizing n with
  | nil => exact Option.some.inj h
  | cons t ts ih =>
    rw [guardedLevel?_cons, Option.bind_eq_some_iff] at h
    obtain ⟨k, here, later⟩ := h
    have same : t.kind.braceLevel n = k := by
      cases kind : t.kind <;> simp_all [Kind.guardedLevel?, Kind.braceLevel]
    rw [braceLevel_cons, same, ih later]

theorem strictLevel?_cons :
    strictLevel? n (t :: ts) = (t.kind.strictLevel? n).bind fun m => strictLevel? m ts := rfl

theorem strictLevel?_append :
    strictLevel? n (ts ++ us) = (strictLevel? n ts).bind fun m => strictLevel? m us :=
  List.foldlM_append

theorem braceLevel_of_strictLevel? (h : strictLevel? n ts = some m) : braceLevel n ts = m := by
  induction ts generalizing n with
  | nil => exact Option.some.inj h
  | cons t ts ih =>
    rw [strictLevel?_cons, Option.bind_eq_some_iff] at h
    obtain ⟨k, here, later⟩ := h
    have same : t.kind.braceLevel n = k := by
      cases kind : t.kind <;> simp_all [Kind.strictLevel?, Kind.braceLevel]
    rw [braceLevel_cons, same, ih later]

/-- Guarded tokens close no brace that is not open. -/
theorem strictLevel?_of_guardedLevel? (h : guardedLevel? n ts = some m) :
    strictLevel? n ts = some m := by
  induction ts generalizing n with
  | nil => exact h
  | cons t ts ih =>
    rw [guardedLevel?_cons, Option.bind_eq_some_iff] at h
    obtain ⟨k, here, later⟩ := h
    have same : t.kind.strictLevel? n = some k := by
      cases kind : t.kind <;> simp_all [Kind.guardedLevel?, Kind.strictLevel?]
    rw [strictLevel?_cons, same]
    exact ih later

/-- A `;` at level zero is not guarded. -/
theorem guardedLevel?_semicolon (level : braceLevel 0 ts = 0) (semicolon : t.kind = .semicolon) :
    guardedLevel? 0 (ts ++ t :: us) = none := by
  rw [guardedLevel?_append]
  cases guarded : guardedLevel? 0 ts with
  | none => rfl
  | some k =>
    have zero : k = 0 := by rw [← braceLevel_of_guardedLevel? guarded, level]
    rw [Option.bind_some, guardedLevel?_cons, semicolon, zero]
    rfl

/-- No guarded tokens start at the end of the input. -/
theorem eq_nil_of_guardedLevel? (h : guardedLevel? n ts = some m)
    (atEnd : (Tokens.current (ts ++ us)).kind = .eof) : ts = [] := by
  cases ts with
  | nil => rfl
  | cons t ts =>
    have eof : t.kind = .eof := atEnd
    rw [guardedLevel?_cons, eof] at h
    cases h

/-! ## Resuming -/

/-- Where, at top level, reading the tokens `ts` in front of `t` may come to the end of a statement, as
a function of the tokens behind `t`: behind `t`, or at some place in `ts` from which on no more braces
are opened than closed. -/
inductive Boundary (ts : Tokens) (t : Token) : (Tokens → Tokens) → Prop
  | behind : Boundary ts t id
  | before {ts' : Tokens} : ts' <:+ ts → braceLevel 0 ts' = 0 →
    Boundary ts t fun us => ts' ++ t :: us

theorem Boundary.mono {ts' : Tokens} {go : Tokens → Tokens} (h : Boundary ts' t go)
    (further : ts' <:+ ts) : Boundary ts t go := by
  cases h with
  | behind => exact .behind
  | before inside level => exact .before (inside.trans further) level

/-- At top level, recovery in front of a `;` at level zero ends at a boundary, whatever stands behind
the `;`. -/
theorem resume_semicolon (level : braceLevel n ts = 0) (notEof : ∀ u ∈ ts, u.kind ≠ .eof)
    (semicolon : t.kind = .semicolon) :
    ∃ go, Boundary ts t go ∧ ∀ us, resume false n (ts ++ t :: us) = go us := by
  induction ts generalizing n with
  | nil =>
    have zero : n = 0 := level
    refine ⟨id, .behind, fun us => ?_⟩
    rw [List.nil_append, resume, semicolon, zero]
    rfl
  | cons u ts ih =>
    have notEof' : ∀ u ∈ ts, u.kind ≠ .eof := fun u' h => notEof u' (List.mem_cons_of_mem u h)
    have shorter : ts <:+ u :: ts := List.suffix_cons u ts
    rw [braceLevel_cons] at level
    -- either recovery ends behind `u`, or it goes on with the level behind `u`
    have behind (zero : u.kind.braceLevel n = 0)
        (here : ∀ us, resume false n (u :: (ts ++ t :: us)) = ts ++ t :: us) :
        ∃ go, Boundary (u :: ts) t go ∧ ∀ us, resume false n (u :: ts ++ t :: us) = go us :=
      ⟨_, .before shorter (zero ▸ level), here⟩
    have later (goesOn : ∀ us, resume false n (u :: (ts ++ t :: us)) =
        resume false (u.kind.braceLevel n) (ts ++ t :: us)) :
        ∃ go, Boundary (u :: ts) t go ∧ ∀ us, resume false n (u :: ts ++ t :: us) = go us := by
      obtain ⟨go, boundary, same⟩ := ih level notEof'
      exact ⟨go, boundary.mono shorter, fun us => (goesOn us).trans (same us)⟩
    cases kind : u.kind with
    | eof => exact absurd kind (notEof u List.mem_cons_self)
    | semicolon =>
      by_cases zero : n = 0
      · exact behind (by rw [kind, zero]; rfl) fun us => by rw [resume, kind]; simp [zero]
      · exact later fun us => by rw [resume, kind]; simp [zero, Kind.braceLevel]
    | closeBrace =>
      by_cases zero : n = 0
      · exact behind (by rw [kind, zero]; rfl) fun us => by rw [resume, kind]; simp [zero]
      · exact later fun us => by rw [resume, kind]; simp [zero, Kind.braceLevel]
    | _ => exact later fun us => by rw [resume, kind]; rfl

/-- Where reading the tokens `ts` in front of `t`, in which braces are matched, may come to the end of a
statement, as a function of the tokens behind `t`: behind `t`, or at some place in `ts` from which on
braces are matched. -/
inductive MatchedBoundary (ts : Tokens) (t : Token) : (Tokens → Tokens) → Prop
  | behind : MatchedBoundary ts t id
  | before {ts' : Tokens} : ts' <:+ ts → strictLevel? 0 ts' = some 0 →
    MatchedBoundary ts t fun us => ts' ++ t :: us

theorem MatchedBoundary.mono {ts' : Tokens} {go : Tokens → Tokens} (h : MatchedBoundary ts' t go)
    (further : ts' <:+ ts) : MatchedBoundary ts t go := by
  cases h with
  | behind => exact .behind
  | before inside level => exact .before (inside.trans further) level

/-- In front of a `;` behind which all braces opened since have been closed, recovery ends at the same
place inside a body and at top level. -/
theorem resume_matched (level : strictLevel? n ts = some 0) (notEof : ∀ u ∈ ts, u.kind ≠ .eof)
    (semicolon : t.kind = .semicolon) :
    ∃ go, MatchedBoundary ts t go ∧ ∀ inBody us, resume inBody n (ts ++ t :: us) = go us := by
  induction ts generalizing n with
  | nil =>
    obtain rfl : n = 0 := Option.some.inj level
    refine ⟨id, .behind, fun inBody us => ?_⟩
    rw [List.nil_append, resume, semicolon]
    rfl
  | cons u ts ih =>
    have notEof' : ∀ u ∈ ts, u.kind ≠ .eof := fun u' h => notEof u' (List.mem_cons_of_mem u h)
    have shorter : ts <:+ u :: ts := List.suffix_cons u ts
    rw [strictLevel?_cons, Option.bind_eq_some_iff] at level
    obtain ⟨k, here, level'⟩ := level
    -- unless it ends behind `u`, recovery goes on with the level behind `u`
    have later (goesOn : ∀ inBody us, resume inBody n (u :: (ts ++ t :: us)) =
        resume inBody k (ts ++ t :: us)) :
        ∃ go, MatchedBoundary (u :: ts) t go ∧
          ∀ inBody us, resume inBody n (u :: ts ++ t :: us) = go us := by
      obtain ⟨go, boundary, same⟩ := ih level' notEof'
      exact ⟨go, boundary.mono shorter, fun inBody us => (goesOn inBody us).trans (same inBody us)⟩
    cases kind : u.kind with
    | eof => exact absurd kind (notEof u List.mem_cons_self)
    | semicolon =>
      rw [kind] at here
      obtain rfl : n = k := Option.some.inj here
      by_cases zero : n = 0
      · subst zero
        refine ⟨_, .before shorter level', fun inBody us => ?_⟩
        rw [List.cons_append, resume, kind]
        rfl
      · exact later fun inBody us => by rw [resume, kind]; simp [zero]
    | closeBrace =>
      rw [kind, Kind.strictLevel?] at here
      split at here
      · cases here
      · rename_i opened
        cases here
        exact later fun inBody us => by rw [resume, kind]; simp [opened]
    | openBrace =>
      rw [kind] at here
      cases here
      exact later fun inBody us => by rw [resume, kind]
    | _ =>
      rw [kind] at here
      cases here
      exact later fun inBody us => by rw [resume, kind]

theorem resume_of_eof (inBody : Bool) (h : us.current.kind = .eof) : resume inBody n us = us := by
  cases us with
  | nil => rfl
  | cons u us =>
    have eof : u.kind = .eof := h
    rw [resume, eof]

theorem resume_of_closeBrace (h : us.current.kind = .closeBrace) : resume true 0 us = us := by
  cases us with
  | nil => rfl
  | cons u us =>
    have close : u.kind = .closeBrace := h
    rw [resume, close]
    rfl

/-- Inside a body, in which `m` braces are open, the dropped tokens lead back to the level of the body
or to the end of the input. Which tokens are dropped depends on them and on the next one only. -/
theorem resume_inBody (inside : m ≠ 0) (ts : Tokens) :
    ∃ c k, ts = c ++ resume true n ts ∧ guardedLevel? (m + n) c = some k ∧
      ((resume true n ts).current.kind = .eof ∨ k = m) ∧
      ∀ us : Tokens, us.current = (resume true n ts).current → resume true n (c ++ us) = us := by
  induction ts generalizing n with
  | nil =>
    have same (us : Tokens) (h : us.current = Token.eof) : resume true n us = us :=
      resume_of_eof true (by rw [h]; rfl)
    exact ⟨[], m + n, rfl, rfl, .inl rfl, same⟩
  | cons t ts ih =>
    -- either recovery goes on behind `t` with `k` open braces, or it stops in front of it
    have later {k : Nat} (level : t.kind.guardedLevel? (m + n) = some (m + k))
        (goesOn : ∀ us, resume true n (t :: us) = resume true k us) :
        ∃ c k, t :: ts = c ++ resume true n (t :: ts) ∧ guardedLevel? (m + n) c = some k ∧
          ((resume true n (t :: ts)).current.kind = .eof ∨ k = m) ∧
          ∀ us : Tokens, us.current = (resume true n (t :: ts)).current →
            resume true n (c ++ us) = us := by
      obtain ⟨c, k', split, guarded, ends, same⟩ := ih (n := k)
      rw [goesOn]
      refine ⟨t :: c, k', congrArg (t :: ·) split, ?_, ends, fun us h => ?_⟩
      · rw [guardedLevel?_cons, level]
        exact guarded
      · exact (goesOn (c ++ us)).trans (same us h)
    have stays (here : resume true n (t :: ts) = t :: ts) (ends : t.kind = .eof ∨ n = 0)
        (same : ∀ us : Tokens, us.current = t → resume true n us = us) :
        ∃ c k, t :: ts = c ++ resume true n (t :: ts) ∧ guardedLevel? (m + n) c = some k ∧
          ((resume true n (t :: ts)).current.kind = .eof ∨ k = m) ∧
          ∀ us : Tokens, us.current = (resume true n (t :: ts)).current →
            resume true n (c ++ us) = us := by
      rw [here]
      refine ⟨[], m + n, rfl, rfl, ends.imp id fun zero => by rw [zero]; rfl, same⟩
    cases kind : t.kind with
    | eof =>
      have same (us : Tokens) (h : us.current.kind = .eof) : resume true n us = us :=
        resume_of_eof true h
      exact stays (same _ kind) (.inl kind) fun us h => same us (by rw [h, kind])
    | semicolon =>
      by_cases zero : n = 0
      · subst zero
        have behind (us : Tokens) : resume true 0 (t :: us) = us := by rw [resume, kind]; rfl
        rw [behind]
        refine ⟨[t], m, rfl, ?_, .inr rfl, fun us _ => behind us⟩
        rw [guardedLevel?_cons, kind]
        simp [Kind.guardedLevel?, inside, guardedLevel?]
      · refine later (k := n) ?_ fun us => by rw [resume, kind]; simp [zero]
        simp [kind, Kind.guardedLevel?, inside]
    | openBrace =>
      exact later (k := n + 1) (by rw [kind]; rfl) fun us => by rw [resume, kind]
    | closeBrace =>
      by_cases zero : n = 0
      · subst zero
        have same (us : Tokens) (h : us.current.kind = .closeBrace) : resume true 0 us = us :=
          resume_of_closeBrace h
        exact stays (same _ kind) (.inr rfl) fun us h => same us (by rw [h, kind])
      · refine later (k := n - 1) ?_ fun us => by rw [resume, kind]; simp [zero]
        have less : m + n - 1 = m + (n - 1) := by omega
        simp [kind, Kind.guardedLevel?, inside, less]
    | _ => exact later (by rw [kind]; rfl) fun us => by rw [resume, kind]

end

end Tokens

end MonkeySyntax
