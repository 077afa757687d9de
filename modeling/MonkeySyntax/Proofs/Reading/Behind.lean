import MonkeySyntax.Proofs.Parser.Contained
import MonkeySyntax.Proofs.Reading.Written

/-!
# Readings in front of other tokens

`Reads.behind` — what is read without loss does not depend on the tokens behind it, as long as reading
ends in front of them: the next token is the same, or, behind an expression, it is another one that goes
on with it neither as a call nor as an operator.
-/

namespace MonkeySyntax

open MonkeySyntax.Parser

/-- Where the phrase has been read in front of `rest`, reading it ends in front of `us` as well. -/
def Phrase.EndsBefore (rest us : Tokens) : Phrase → Prop
  | .operand _ => us.current = rest.current ∨ us.current.kind ≠ .openParen
  | .tail min _ _ | .expression min _ => us.current = rest.current ∨
      (us.current.kind ≠ .openParen ∧ climbs min us.current.kind = false)
  | .arguments _ | .statement _ | .block _ _ => us.current = rest.current

section

variable {ts rest us : Tokens} {d : Nat}

theorem Phrase.endsBefore_of_current (h : us.current = rest.current) (x : Phrase) :
    x.EndsBefore rest us := by
  cases x <;> first | exact h | exact .inl h

/-- Behind other tokens, nothing has to be asked of what stands further behind. -/
theorem Phrase.endsBefore_append {x : Phrase} (c : Tokens) (h : x.EndsBefore rest us) :
    x.EndsBefore (c ++ rest) (c ++ us) := by
  cases c with
  | nil => exact h
  | cons t c => exact endsBefore_of_current rfl x

theorem ReadsParameters.behind {names : List Ident} (h : ReadsParameters names ts rest) :
    ∃ c, ts = c ++ rest ∧
      ∀ us : Tokens, us.current = rest.current → ReadsParameters names (c ++ us) us := by
  induction h with
  | nil stops => exact ⟨[], rfl, fun us same => .nil (by rw [List.nil_append, same]; exact stops)⟩
  | @cons t names ts rest kind later ih =>
    obtain ⟨c, split, again⟩ := ih
    obtain ⟨c', front, skipped⟩ := Tokens.skipping_local .comma (by decide) ts
    refine ⟨t :: (c' ++ c), ?_, fun us same => ?_⟩
    · rw [List.cons_append, List.append_assoc, ← split, ← front]
    · have next : (c ++ us : Tokens).current = (ts.skipping .comma).current := by
        rw [split, current_append same]
      rw [List.cons_append, List.append_assoc]
      refine .cons kind ?_
      rw [(skipped _ next).2]
      exact again us same

/-- An expression with the mark behind it that may be missing. -/
theorem Phrase.behind_skipping {min : Precedence} {e : Expr} {mid : Tokens} (kind : Kind)
    (notEof : kind ≠ .eof) (h : ∃ c, ts = c ++ mid ∧
      ∀ us, (expression min e).EndsBefore mid us → Reads False (.expression min e) (c ++ us) us d) :
    ∃ c, ts = c ++ mid.skipping kind ∧ ∀ us : Tokens, us.current = (mid.skipping kind).current →
      (c ++ us : Tokens).current = ts.current ∧
      ∃ mid', mid'.skipping kind = us ∧ Reads False (.expression min e) (c ++ us) mid' d := by
  obtain ⟨c, rfl, again⟩ := h
  obtain ⟨c', front, skipped⟩ := Tokens.skipping_local kind notEof mid
  refine ⟨c ++ c', by rw [List.append_assoc, ← front], fun us ends => ?_⟩
  obtain ⟨same, behind⟩ := skipped us ends
  rw [List.append_assoc]
  exact ⟨current_append same, c' ++ us, behind, again _ (.inl same)⟩

/-- What is read without loss is read as well in front of all other tokens in front of which reading it
ends. -/
theorem Reads.behind {x : Phrase} (h : Reads False x ts rest d) :
    ∃ c, ts = c ++ rest ∧ ∀ us, x.EndsBefore rest us → Reads False x (c ++ us) us d := by
  induction h with
  | @unary t op _ _ _ _ kind _ ih =>
    obtain ⟨c, rfl, again⟩ := ih
    refine ⟨t :: c, rfl, fun us ends => .unary kind (again us ?_)⟩
    exact ends.imp_right fun other => ⟨other, climbs_unary _⟩
  | @integer t _ _ kind value => exact ⟨[t], rfl, fun us _ => .integer kind value⟩
  | @boolean t _ _ kind => exact ⟨[t], rfl, fun us _ => .boolean kind⟩
  | @grouped o c _ _ _ _ kind _ kind' ih =>
    obtain ⟨w, rfl, again⟩ := ih
    refine ⟨o :: (w ++ [c]), by simp, fun us _ => ?_⟩
    rw [List.cons_append, List.append_assoc]
    exact .grouped kind (again (c :: us) (.inl rfl)) kind'
  | @name t ts kind other =>
    refine ⟨[t], rfl, fun us ends => .name kind ?_⟩
    rcases ends with same | other'
    · exact same ▸ other
    · exact other'
  | @call t o c _ _ _ _ kind kindOpen _ kind' ih =>
    obtain ⟨w, rfl, again⟩ := ih
    refine ⟨t :: o :: (w ++ [c]), by simp, fun us _ => ?_⟩
    rw [List.cons_append, List.cons_append, List.append_assoc]
    exact .call kind kindOpen (again (c :: us) rfl) kind'
  | @function t o c o' c' _ _ ts ts' _ _ kind kindOpen params kindClose kindOpen' _ kindClose' ih =>
    obtain ⟨v, rfl, againParams⟩ := params.behind
    obtain ⟨w, rfl, again⟩ := ih
    refine ⟨t :: o :: (v ++ c :: o' :: (w ++ [c'])), by simp, fun us _ => ?_⟩
    simp only [List.cons_append, List.append_assoc, List.nil_append]
    exact .function kind kindOpen (againParams _ rfl) kindClose kindOpen' (again (c' :: us) rfl)
      kindClose'
  | @done min e ts stops =>
    refine ⟨[], rfl, fun us ends => .done ?_⟩
    rcases ends with same | ⟨-, stops'⟩
    · exact same ▸ stops
    · exact stops'
  | @extend t op min _ _ _ _ _ _ _ _ kind climbs _ _ ihRight ihTail =>
    obtain ⟨c₂, rfl, againTail⟩ := ihTail
    obtain ⟨c₁, rfl, againRight⟩ := ihRight
    refine ⟨t :: (c₁ ++ c₂), by simp, fun us ends => ?_⟩
    rw [List.cons_append, List.append_assoc]
    refine .extend kind climbs (againRight _ (Phrase.endsBefore_append c₂ ?_)) (againTail us ends)
    -- what does not climb beside the operator does not climb behind it
    refine ends.imp_right fun ⟨other, stops⟩ => ⟨other, climbs_eq_false_of_le stops ?_⟩
    exact Nat.le_of_lt (of_decide_eq_true climbs)
  | expression _ _ ihLeft ihTail =>
    obtain ⟨c₂, rfl, againTail⟩ := ihTail
    obtain ⟨c₁, rfl, againLeft⟩ := ihLeft
    refine ⟨c₁ ++ c₂, by simp, fun us ends => ?_⟩
    rw [List.append_assoc]
    refine .expression (againLeft _ (Phrase.endsBefore_append c₂ ?_)) (againTail us ends)
    exact ends.imp_right And.left
  | @noArguments ts stops =>
    refine ⟨[], rfl, fun us (ends : us.current = ts.current) => .noArguments ?_⟩
    rw [List.nil_append, ends]
    exact stops
  | @argument _ _ _ _ rest _ _ _ _ ihFirst ihLater =>
    obtain ⟨c₂, split, againLater⟩ := ihLater
    obtain ⟨c₁, rfl, againFirst⟩ := Phrase.behind_skipping .comma (by decide) ihFirst
    refine ⟨c₁ ++ c₂, by rw [split, List.append_assoc], fun us (ends : us.current = rest.current) => ?_⟩
    obtain ⟨-, mid, skipped, first⟩ := againFirst (c₂ ++ us) (by rw [split, current_append ends])
    rw [List.append_assoc]
    exact .argument first (skipped ▸ againLater us ends)
  | @binding t n a _ _ _ _ kind kindName kindAssign _ ih =>
    obtain ⟨c, rfl, again⟩ := Phrase.behind_skipping .semicolon (by decide) ih
    refine ⟨t :: n :: a :: c, rfl, fun us ends => ?_⟩
    obtain ⟨-, mid, rfl, value⟩ := again us ends
    exact .binding kind kindName kindAssign value
  | @ret t _ _ _ _ kind _ ih =>
    obtain ⟨c, rfl, again⟩ := Phrase.behind_skipping .semicolon (by decide) ih
    refine ⟨t :: c, rfl, fun us ends => ?_⟩
    obtain ⟨-, mid, rfl, value⟩ := again us ends
    exact .ret kind value
  | bare _ ih =>
    obtain ⟨c, rfl, again⟩ := Phrase.behind_skipping .semicolon (by decide) ih
    refine ⟨c, rfl, fun us ends => ?_⟩
    obtain ⟨same, mid, rfl, value⟩ := again us ends
    exact same ▸ .bare value
  | @finish inBody ts stops =>
    refine ⟨[], rfl, fun us (ends : us.current = ts.current) => .finish ?_⟩
    rw [List.nil_append, ends]
    exact stops
  | @keep inBody _ _ ts ts' rest _ _ goesOn _ _ ihFirst ihLater =>
    obtain ⟨c₂, rfl, againLater⟩ := ihLater
    obtain ⟨c₁, rfl, againFirst⟩ := ihFirst
    refine ⟨c₁ ++ c₂, by simp, fun us (ends : us.current = rest.current) => ?_⟩
    have next := current_append ends (c := c₂)
    rw [List.append_assoc]
    refine .keep ?_ (againFirst _ next) (againLater us ends)
    rw [current_append next]
    exact goesOn
  | drop loses _ _ _ => exact loses.elim

end

end MonkeySyntax
