import MonkeySyntax.Proofs.Reading.Behind
import MonkeySyntax.Proofs.Reading.OfRun
import MonkeySyntax.Proofs.Reading.ToRun
import MonkeySyntax.Tree.Equality

/-!
# Climbing along a chain

A chain is an operand and any number of links, each a binary operator with a further operand.
`expression_chain` — with any floor, an expression that starts a chain ends in front of the first
operator that does not bind more tightly than the floor, and is what the chain up to there is on its own.

The right operand of an operator is an expression with a higher floor. It takes some of the links
behind that operator, and the loop goes on with those that it has left (`dropWhile_dropWhile`). So what
is proved of the links, by induction on their number, is about all floors at once (`exists_reads_links`).
-/

namespace MonkeySyntax

open MonkeySyntax.Parser

/-- On their own, the tokens are one operand, that is an integer, a boolean, a name, a call, a function
or a group, behind any number of signs: reading it gives no error and ends at the end of the input. -/
def Tokens.IsOperand (ts : Tokens) : Prop :=
  ∃ room, ((operand (expression room)).run (ts ++ [Token.eof])).errors = [] ∧
    ((operand (expression room)).run (ts ++ [Token.eof])).rest = [Token.eof]

/-- A binary operator and the operand on its right. -/
structure Link where
  token : Token
  op : BinaryOp
  kind : token.kind = op.kind
  operand : Tokens
  isOperand : operand.IsOperand

/-- Operands with binary operators between them. -/
structure Chain where
  first : Tokens
  isOperand : first.IsOperand
  links : List Link

namespace Chain

/-- The tokens of links in a row. -/
def linked (links : List Link) : Tokens := links.flatMap fun link => link.token :: link.operand

/-- The tokens of a chain. -/
def tokens (chain : Chain) : Tokens := chain.first ++ linked chain.links

/-- Whether the operator binds more tightly than the floor. -/
def exceeds (min : Precedence) (link : Link) : Bool := climbs min link.op.kind

/-- The chain up to the first operator that does not bind more tightly than the floor. -/
def upTo (min : Precedence) (chain : Chain) : Chain :=
  { chain with links := chain.links.takeWhile (exceeds min) }

/-- The links from the first operator on that does not bind more tightly than the floor. -/
def behind (min : Precedence) (chain : Chain) : List Link := chain.links.dropWhile (exceeds min)

theorem linked_cons (link : Link) (links : List Link) :
    linked (link :: links) = link.token :: (link.operand ++ linked links) :=
  List.flatMap_cons

theorem linked_append (links links' : List Link) :
    linked (links ++ links') = linked links ++ linked links' :=
  List.flatMap_append

theorem tokens_upTo_append_behind (min : Precedence) (chain : Chain) :
    (chain.upTo min).tokens ++ linked (chain.behind min) = chain.tokens := by
  rw [tokens, tokens, upTo, behind, List.append_assoc, ← linked_append,
    List.takeWhile_append_dropWhile]

/-- Behind an operator that exceeds the floor, what exceeds the operator exceeds the floor. -/
theorem exceeds_of_exceeds {min : Precedence} {link other : Link} (h : exceeds min link = true)
    (above : exceeds link.op.kind.precedence other = true) : exceeds min other = true :=
  decide_eq_true (Nat.lt_trans (of_decide_eq_true h) (of_decide_eq_true above))

end Chain

/-! ## Links -/

/-- Dropping more goes on where dropping less has ended. -/
theorem dropWhile_dropWhile {α : Type} {p q : α → Bool} (weaker : ∀ a, p a = true → q a = true)
    (as : List α) : (as.dropWhile p).dropWhile q = as.dropWhile q := by
  induction as with
  | nil => rfl
  | cons a as ih =>
    by_cases h : p a = true
    · rw [List.dropWhile_cons_of_pos h, List.dropWhile_cons_of_pos (weaker a h), ih]
    · rw [List.dropWhile_cons_of_neg h]

section

open Chain

variable {ts rest : Tokens} {d : Nat}

/-- An operand is read in front of every token that does not make it a callee. -/
theorem Tokens.IsOperand.reads (h : ts.IsOperand) :
    ∃ e d, e.height ≤ maxHeight ∧ ∀ rest : Tokens, rest.current.kind ≠ .openParen →
      Reads False (.operand e) (ts ++ rest) rest d := by
  obtain ⟨room, none, ends⟩ := h
  rcases run : (operand (expression room)).run (ts ++ [Token.eof]) with ⟨m | e, recorded, rest, reach⟩
  · simp [run, Outcome.errors] at none
  · rw [run] at none ends
    obtain rfl : recorded = [] := none
    obtain rfl : rest = [Token.eof] := ends
    have gives : (operand (expression room)).Gives False _ e [Token.eof] reach :=
      ⟨[], run, absurd rfl⟩
    obtain ⟨e, -, within, reads⟩ := operand_reads (expression_explained room) gives
    obtain ⟨c, split, again⟩ := reads.behind
    obtain rfl : ts = c := List.append_cancel_right split
    exact ⟨e, reach, within, fun rest noCall => again rest (.inr noCall)⟩

/-- Behind links there is no parenthesis that would make a callee of the operand in front. -/
theorem current_linked_ne (links : List Link) (noCall : rest.current.kind ≠ .openParen) :
    (linked links ++ rest).current.kind ≠ .openParen := by
  cases links with
  | nil => exact noCall
  | cons link links =>
    show link.token.kind ≠ .openParen
    rw [link.kind]
    cases link.op <;> decide

/-- Behind any left operand, the links whose operators exceed the floor are read, up to the first one
whose operator does not. -/
theorem exists_reads_links (noCall : rest.current.kind ≠ .openParen)
    (noOperator : climbs .lowest rest.current.kind = false) (links : List Link) (min : Precedence)
    (left : Expr) :
    ∃ e d, Reads False (.tail min left e) (linked links ++ rest)
      (linked (links.dropWhile (exceeds min)) ++ rest) d := by
  induction number : links.length using Nat.strong_induction_on generalizing links min left with
  | _ number ih =>
  subst number
  cases links with
  | nil => exact ⟨left, 0, .done (climbs_eq_false_of_le noOperator (Nat.zero_le _))⟩
  | cons link links =>
    by_cases goesOn : exceeds min link = true
    · obtain ⟨right, d, -, operand⟩ := link.isOperand.reads
      -- the right operand takes the links whose operators exceed its own
      obtain ⟨e, d', inner⟩ := ih links.length (Nat.lt_succ_self _) links link.op.kind.precedence
        right rfl
      have whole := Reads.expression (operand _ (current_linked_ne links noCall)) inner
      have fewer := (List.dropWhile_suffix (exceeds link.op.kind.precedence) (l := links)).length_le
      obtain ⟨e', d'', outer⟩ := ih _ (Nat.lt_succ_of_le fewer) _ min
        (.binary link.token left link.op e) rfl
      rw [dropWhile_dropWhile fun other => exceeds_of_exceeds goesOn] at outer
      rw [List.dropWhile_cons_of_pos goesOn, linked_cons, List.cons_append, List.append_assoc]
      exact ⟨e', _, .extend link.kind goesOn whole outer⟩
    · refine ⟨left, 0, ?_⟩
      rw [List.dropWhile_cons_of_neg goesOn]
      refine .done (Bool.eq_false_iff.mpr ?_)
      show ¬climbs min link.token.kind = true
      rwa [link.kind]

/-- A lower floor makes no difference where no operator exceeds it behind the chain either. -/
theorem Reads.lower_tail {min min' : Precedence} {left e : Expr}
    (h : Reads False (.tail min left e) ts rest d) (le : min' ≤ min)
    (stops : climbs min' rest.current.kind = false) : Reads False (.tail min' left e) ts rest d := by
  -- the index has to be a variable for the induction; only chains of operators are of its form
  generalize hx : Phrase.tail min left e = x at h
  induction h generalizing left with
  | done _ =>
    cases hx
    exact .done stops
  | extend kind goesOn right _ _ ihTail =>
    cases hx
    have tighter := Nat.lt_of_le_of_lt le (of_decide_eq_true goesOn)
    exact .extend kind (decide_eq_true tighter) right (ihTail stops rfl)
  | _ => cases hx

theorem Reads.lower {min min' : Precedence} {e : Expr} (h : Reads False (.expression min e) ts rest d)
    (le : min' ≤ min) (stops : climbs min' rest.current.kind = false) :
    Reads False (.expression min' e) ts rest d := by
  cases h with
  | expression operand tail => exact .expression operand (tail.lower_tail le stops)

/-! ## Chains -/

/-- Any floor cuts a chain in front of the first operator that does not exceed it. What is read up to
there does not depend on the floor, nor on what stands behind. -/
theorem exists_reads_chain (noCall : rest.current.kind ≠ .openParen)
    (noOperator : climbs .lowest rest.current.kind = false) (chain : Chain) (min : Precedence) :
    ∃ e d, Reads False (.expression min e) (chain.tokens ++ rest) (linked (chain.behind min) ++ rest) d ∧
      Reads False (.expression .lowest e) ((chain.upTo min).tokens ++ [Token.eof]) [Token.eof] d := by
  obtain ⟨left, d, -, operand⟩ := chain.isOperand.reads
  obtain ⟨e, d', tail⟩ := exists_reads_links noCall noOperator chain.links min left
  have whole := Reads.expression (operand _ (current_linked_ne chain.links noCall)) tail
  rw [← List.append_assoc] at whole
  obtain ⟨c, split, again⟩ := Reads.behind whole
  obtain rfl : (chain.upTo min).tokens = c := by
    rw [← List.append_assoc] at split
    have front := List.append_cancel_right split
    exact List.append_cancel_right ((chain.tokens_upTo_append_behind min).trans front)
  have alone := again [Token.eof] (.inr ⟨by decide, by cases min <;> rfl⟩)
  exact ⟨e, _, whole, alone.lower (Nat.zero_le _) rfl⟩

/-- Behind a chain stands neither a binary operator nor a parenthesis that opens. Where no limit is
reached, an expression with any floor that starts the chain ends in front of the first operator that
does not bind more tightly than the floor, or behind the chain. It is the expression that the chain up
to there is on its own, with the same height, which is that of the tree. -/
theorem expression_chain (chain : Chain) (min : Precedence) (room : Nat) (rest : Tokens)
    (noOperator : BinaryOp.ofKind? rest.current.kind = none)
    (noCall : rest.current.kind ≠ .openParen)
    (allowed : .nestingTooDeep maxHeight ∉
      ((expression room min).run (chain.tokens ++ rest)).errors) :
    ∃ m reach, (expression room min).run (chain.tokens ++ rest) =
        ⟨.ok m, [], linked (chain.behind min) ++ rest, reach⟩ ∧
      (∀ room', reach ≤ room' →
        (expression room' .lowest).run ((chain.upTo min).tokens ++ [Token.eof]) =
          ⟨.ok m, [], [Token.eof], reach⟩) ∧
      reach ≤ room ∧ m.height = m.value.height := by
  have stops : climbs .lowest rest.current.kind = false := by
    by_contra goesOn
    have operator := isSome_ofKind?_of_climbs (Bool.not_eq_false _ ▸ goesOn)
    rw [noOperator] at operator
    cases operator
  obtain ⟨e, d, whole, alone⟩ := exists_reads_chain noCall stops chain min
  rcases whole.runsOn room with ⟨⟨within, fits⟩, run⟩ | ⟨-, tooDeep⟩
  · refine ⟨e.measured, d, run, fun room' fits' => ?_, fits, rfl⟩
    rcases alone.runsOn room' with ⟨-, run'⟩ | ⟨never, -⟩
    · exact run'
    · exact absurd ⟨within, fits'⟩ never
  · exact absurd (List.mem_of_mem_head? tooDeep) allowed

/-- With a floor that sums exceed and equations do not, a sum of a product and a call is cut off in front
of `==`. -/
theorem expression_chain_sum :
    let name (text : String) : Token := ⟨.identifier, text⟩
    let sum : Tokens := [name "a", Kind.asterisk.token, Kind.minus.token, name "b", Kind.plus.token,
      name "f", Kind.openParen.token, ⟨.integer, "1"⟩, Kind.closeParen.token]
    let behind : Tokens :=
      [Kind.equals.token, Kind.openParen.token, name "c", Kind.closeParen.token, Token.eof]
    .nestingTooDeep maxHeight ∉ ((expression 3 .comparison).run (sum ++ behind)).errors ∧
      ∃ m reach, (expression 3 .comparison).run (sum ++ behind) = ⟨.ok m, [], behind, reach⟩ ∧
        (expression 3 .lowest).run (sum ++ [Token.eof]) = ⟨.ok m, [], [Token.eof], reach⟩ ∧
        m.height = m.value.height := by
  intro name sum behind
  have allowed : .nestingTooDeep maxHeight ∉
      ((expression 3 .comparison).run (sum ++ behind)).errors := by
    decide +kernel
  have signed : Tokens.IsOperand [Kind.minus.token, name "b"] :=
    ⟨1, by decide +kernel, by decide +kernel⟩
  have call : Tokens.IsOperand
      [name "f", Kind.openParen.token, ⟨.integer, "1"⟩, Kind.closeParen.token] :=
    ⟨1, by decide +kernel, by decide +kernel⟩
  have grouped : Tokens.IsOperand [Kind.openParen.token, name "c", Kind.closeParen.token] :=
    ⟨1, by decide +kernel, by decide +kernel⟩
  let chain : Chain := ⟨[name "a"], ⟨0, rfl, rfl⟩, [⟨Kind.asterisk.token, .mul, rfl, _, signed⟩,
    ⟨Kind.plus.token, .add, rfl, _, call⟩, ⟨Kind.equals.token, .eq, rfl, _, grouped⟩]⟩
  obtain ⟨m, reach, run, alone, fits, height⟩ :=
    expression_chain chain .comparison 3 [Token.eof] rfl (by decide) allowed
  exact ⟨allowed, m, reach, run, alone 3 fits, height⟩

end

end MonkeySyntax
