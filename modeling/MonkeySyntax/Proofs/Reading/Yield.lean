import MonkeySyntax.Proofs.Reading
import MonkeySyntax.Proofs.Tree.Yield

/-!
# What is read is in the tree

* `Reads.traces` — the tokens in a tree are those that it was read from, without the ones that leave
  no trace. Where statements are left out, no token is in the tree that was not read, and none of them
  has changed its place.
* `Reads.leads` — the leftmost token in an expression is where reading it began.
-/

namespace MonkeySyntax

open List (Sublist)

/-- Of the tokens between `ts` and its end piece `rest`, those that leave a trace are `w`. If some of
them may have been lost, `w` is still among them, in their order. -/
def Traces (lossy : Prop) (w ts rest : Tokens) : Prop :=
  ∃ c, ts = c ++ rest ∧ w.Sublist (c.filter (·.kind.leavesTrace)) ∧
    (¬lossy → w = c.filter (·.kind.leavesTrace))

section

variable {lossy : Prop} {w w' ts mid rest : Tokens} {t : Token}

theorem Traces.refl (ts : Tokens) : Traces lossy [] ts ts :=
  ⟨[], rfl, Sublist.refl _, fun _ => rfl⟩

theorem Traces.append (first : Traces lossy w ts mid) (later : Traces lossy w' mid rest) :
    Traces lossy (w ++ w') ts rest := by
  obtain ⟨c, rfl, among, exactly⟩ := first
  obtain ⟨c', rfl, among', exactly'⟩ := later
  refine ⟨c ++ c', (List.append_assoc c c' rest).symm, ?_, fun lossless => ?_⟩
  · rw [List.filter_append]
    exact among.append among'
  · rw [List.filter_append, ← exactly lossless, ← exactly' lossless]

/-- A token that leaves a trace, in front of what is read behind it. -/
theorem Traces.cons (leaves : t.kind.leavesTrace = true) (later : Traces lossy w ts rest) :
    Traces lossy (t :: w) (t :: ts) rest := by
  have here : Traces lossy [t] (t :: ts) ts :=
    ⟨[t], rfl, by simp [leaves], fun _ => by simp [leaves]⟩
  exact here.append later

/-- A token that leaves no trace, in front of what is read behind it. -/
theorem Traces.opening (leaves : t.kind.leavesTrace = false) (later : Traces lossy w ts rest) :
    Traces lossy w (t :: ts) rest := by
  have here : Traces lossy [] (t :: ts) ts :=
    ⟨[t], rfl, by simp [leaves], fun _ => by simp [leaves]⟩
  exact here.append later

/-- A token that leaves no trace, behind what is read in front of it. -/
theorem Traces.closing (first : Traces lossy w ts (t :: rest)) (leaves : t.kind.leavesTrace = false) :
    Traces lossy w ts rest := by
  have whole := first.append ((Traces.refl rest).opening leaves)
  rwa [List.append_nil] at whole

/-- A separator that is skipped leaves no trace. -/
theorem Traces.skipping (first : Traces lossy w ts rest) (kind : Kind) (notEof : kind ≠ .eof)
    (leaves : kind.leavesTrace = false) : Traces lossy w ts (rest.skipping kind) := by
  by_cases here : rest.current.kind = kind
  · have front : rest = rest.current :: rest.advance := Tokens.eq_cons_of_current (here ▸ notEof)
    rw [Tokens.skipping, if_pos here]
    rw [front] at first
    exact first.closing (here ▸ leaves)
  · rwa [Tokens.skipping_of_ne here]

theorem Traces.lost (loses : lossy) (further : mid <:+ ts) (later : Traces lossy w mid rest) :
    Traces lossy w ts rest := by
  obtain ⟨c, rfl⟩ := further
  have dropped : Traces lossy [] (c ++ mid) mid :=
    ⟨c, rfl, List.nil_sublist _, fun lossless => absurd loses lossless⟩
  exact dropped.append later

theorem Traces.sublist (h : Traces lossy w ts rest) : w.Sublist ts := by
  obtain ⟨c, rfl, among, -⟩ := h
  exact (among.trans List.filter_sublist).trans (List.sublist_append_left c rest)

end

/-- The tokens in the phrase are those between `ts` and `rest` that leave a trace; of a `tail`, the
ones that it adds to the expression it starts from. -/
def Phrase.Traces (lossy : Prop) (ts rest : Tokens) : Phrase → Prop
  | .operand e => MonkeySyntax.Traces lossy e.yield ts rest
  | .tail _ left e => ∃ w, e.yield = left.yield ++ w ∧ MonkeySyntax.Traces lossy w ts rest
  | .expression _ e => MonkeySyntax.Traces lossy e.yield ts rest
  | .arguments es => MonkeySyntax.Traces lossy (Expr.yieldAll es) ts rest
  | .statement s => MonkeySyntax.Traces lossy s.yield ts rest
  | .block _ ss => MonkeySyntax.Traces lossy (Stmt.yieldAll ss) ts rest

section

variable {lossy : Prop} {ts rest : Tokens} {d : Nat}

theorem ReadsParameters.traces {names : List Ident} (h : ReadsParameters names ts rest) :
    Traces lossy (names.map Ident.token) ts rest := by
  induction h with
  | nil _ => exact Traces.refl _
  | @cons t _ ts _ kind _ ih =>
    have here : Traces lossy [t] (t :: ts) ts :=
      (Traces.refl ts).cons (congrArg Kind.leavesTrace kind)
    exact (here.skipping .comma (by decide) rfl).append ih

/-- What is read is in the tree, as far as it leaves a trace. -/
theorem Reads.traces {x : Phrase} (h : Reads lossy x ts rest d) (lexical : ts.Lexical) :
    x.Traces lossy ts rest := by
  induction h with
  | @unary t op _ _ _ _ kind _ ih =>
    exact (ih lexical.behind).cons ((congrArg Kind.leavesTrace kind).trans op.leavesTrace_kind)
  | integer kind _ => exact (Traces.refl _).cons (congrArg Kind.leavesTrace kind)
  | @boolean t value _ kind =>
    exact (Traces.refl _).cons ((congrArg Kind.leavesTrace kind).trans (by cases value <;> rfl))
  | grouped kind _ kind' ih =>
    have inside := (ih lexical.behind).closing (congrArg Kind.leavesTrace kind')
    exact inside.opening (congrArg Kind.leavesTrace kind)
  | name kind _ => exact (Traces.refl _).cons (congrArg Kind.leavesTrace kind)
  | call kind kindOpen _ kindClose ih =>
    have args := (ih lexical.behind.behind).closing (congrArg Kind.leavesTrace kindClose)
    exact (args.opening (congrArg Kind.leavesTrace kindOpen)).cons (congrArg Kind.leavesTrace kind)
  | @function t o c o' c' params body ts ts' rest d kind kindOpen readsParams kindClose kindOpen' reads
      kindClose' ih =>
    have atBody := (lexical.behind.behind.suffix readsParams.suffix).behind
    have atClose : Tokens.Lexical (c' :: rest) := atBody.behind.suffix reads.suffix
    -- the braces are part of the yield, which shows them as the only tokens of their kinds
    obtain rfl : o' = Kind.openBrace.token := atBody.here.eq_token kindOpen' rfl
    obtain rfl : c' = Kind.closeBrace.token := atClose.here.eq_token kindClose' rfl
    have names : Traces lossy (params.map Ident.token) ts (Kind.openBrace.token :: ts') :=
      readsParams.traces.closing (congrArg Kind.leavesTrace kindClose)
    have closed : Traces lossy [Kind.closeBrace.token] (Kind.closeBrace.token :: rest) rest :=
      (Traces.refl rest).cons rfl
    have braces : Traces lossy (Kind.openBrace.token :: (Stmt.yieldAll body ++
        [Kind.closeBrace.token])) (Kind.openBrace.token :: ts') rest :=
      ((ih atBody.behind).append closed).cons rfl
    have whole := ((names.append braces).opening (congrArg Kind.leavesTrace kindOpen)).cons
      (congrArg Kind.leavesTrace kind)
    simpa [Phrase.Traces, Expr.yield] using whole
  | done _ => exact ⟨[], (List.append_nil _).symm, Traces.refl _⟩
  | @extend t op _ left right e _ _ _ _ _ kind _ reads _ ihRight ihTail =>
    obtain ⟨w, same, later⟩ := ihTail (lexical.behind.suffix reads.suffix)
    have sign := (ihRight lexical.behind).cons
      ((congrArg Kind.leavesTrace kind).trans op.leavesTrace_kind)
    refine ⟨t :: right.yield ++ w, ?_, sign.append later⟩
    rw [same, Expr.yield]
    simp
  | expression reads _ ihLeft ihTail =>
    obtain ⟨w, same, later⟩ := ihTail (lexical.suffix reads.suffix)
    show Traces lossy _ _ _
    rw [same]
    exact (ihLeft lexical).append later
  | noArguments _ => exact Traces.refl _
  | @argument _ _ _ ts' _ _ _ reads _ ihFirst ihLater =>
    have further := (Tokens.skipping_suffix .comma ts').trans reads.suffix
    exact ((ihFirst lexical).skipping .comma (by decide) rfl).append (ihLater (lexical.suffix further))
  | binding kind kindName kindSign _ ih =>
    have value := (ih lexical.behind.behind.behind).skipping .semicolon (by decide) rfl
    have sign := lexical.behind.behind.here.eq_token kindSign rfl
    subst sign
    exact ((value.cons rfl).cons (congrArg Kind.leavesTrace kindName)).cons
      (congrArg Kind.leavesTrace kind)
  | ret kind _ ih =>
    have value := (ih lexical.behind).skipping .semicolon (by decide) rfl
    exact value.cons (congrArg Kind.leavesTrace kind)
  | bare _ ih => exact (ih lexical).skipping .semicolon (by decide) rfl
  | finish _ => exact Traces.refl _
  | keep _ first _ ihFirst ihLater =>
    exact (ihFirst lexical).append (ihLater (lexical.suffix first.suffix))
  | drop loses further _ ih => exact (ih (lexical.suffix further)).lost loses further

theorem Reads.operand_leads {e : Expr} (h : Reads lossy (.operand e) ts rest d) :
    ts.current.kind = .openParen ∨ e.yield.head? = some ts.current := by
  cases h with
  | grouped kind _ _ => exact .inl kind
  | unary _ _ => exact .inr rfl
  | integer _ _ => exact .inr rfl
  | boolean _ => exact .inr rfl
  | name _ _ => exact .inr rfl
  | call _ _ _ _ => exact .inr rfl
  | function _ _ _ _ _ _ _ => exact .inr rfl

/-- The leftmost token in an expression is the first one that was read, unless that is a `(`. -/
theorem Reads.leads {min : Precedence} {e : Expr} (h : Reads lossy (.expression min e) ts rest d)
    (lexical : ts.Lexical) : ts.current.kind = .openParen ∨ e.yield.head? = some ts.current := by
  cases h with
  | expression operand tail =>
    -- operators only add tokens behind those of the operand
    obtain ⟨w, same, -⟩ := tail.traces (lexical.suffix operand.suffix)
    refine operand.operand_leads.imp_right fun first => ?_
    rw [same, List.head?_append, first]
    rfl

end

end MonkeySyntax
