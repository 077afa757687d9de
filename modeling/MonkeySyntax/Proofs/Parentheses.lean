import MonkeySyntax.Proofs.Progress
import MonkeySyntax.Proofs.Reading.Behind
import MonkeySyntax.Proofs.Reading.Loosened
import MonkeySyntax.Proofs.Reading.Session
import MonkeySyntax.Tree.Equality

/-!
# Redundant parentheses

`parse_inParentheses` — a source that is one expression is parsed in any number of parentheses as it is
on its own, as long as the limit on open expressions allows them. Each pair opens one expression more,
and none of them makes the tree any higher.
-/

namespace MonkeySyntax

open Machine (Reaches)
open Source

/-- The text in so many pairs of parentheses. -/
def inParentheses (pairs : Nat) (text : String) : String :=
  String.ofList (List.replicate pairs '(') ++ text ++ String.ofList (List.replicate pairs ')')

/-- The tokens in so many pairs of parentheses. -/
def Tokens.inParentheses (pairs : Nat) (ts : Tokens) : Tokens :=
  List.replicate pairs Kind.openParen.token ++ ts ++ List.replicate pairs Kind.closeParen.token

/-! ## Tokens -/

theorem ofString_replicate {c : Char} (ascii : c.toNat < 128) (n : Nat) :
    ofString (String.ofList (List.replicate n c)) = List.replicate n c := by
  rw [ofString_eq_toList, String.toList_ofList]
  intro d mem
  rw [String.toList_ofList] at mem
  rwa [List.eq_of_mem_replicate mem]

theorem tokens_replicate (c : Char) (kind : Kind) (h : Kind.ofSymbol? c = some kind)
    (alone : c ≠ '=' ∧ c ≠ '!') (n : Nat) (rest : Source) :
    tokens (List.replicate n c ++ rest) = List.replicate n kind.token ++ tokens rest := by
  induction n with
  | zero => rfl
  | succ n ih =>
    rw [List.replicate_succ, List.cons_append, tokens_symbol c kind h alone, ih]
    rfl

theorem separates_replicate_closeParen (n : Nat) : Separates (List.replicate n ')') := by
  cases n with
  | zero => rintro c ⟨⟩
  | succ n => exact separates_cons (by decide) _

theorem tokenize_inParentheses (pairs : Nat) (text : String) :
    tokenize (inParentheses pairs text) =
      Tokens.inParentheses pairs (ofString text).remaining ++ [Token.eof] := by
  have behind := tokens_replicate ')' .closeParen rfl (by decide) pairs []
  rw [List.append_nil, tokens_nil] at behind
  rw [tokenize, inParentheses, ofString_append, ofString_append, ofString_replicate (by decide),
    ofString_replicate (by decide), List.append_assoc,
    tokens_replicate '(' .openParen rfl (by decide),
    tokens_append _ (separates_replicate_closeParen pairs), behind, Tokens.inParentheses,
    List.append_assoc, List.append_assoc]

/-- In parentheses, a source starts with one. -/
theorem current_inParentheses (pairs : Nat) (text : String) :
    Tokens.current (tokenize (inParentheses pairs text)) =
      if pairs = 0 then Tokens.current (tokenize text) else Kind.openParen.token := by
  rw [tokenize_inParentheses]
  cases pairs with
  | zero => simp [Tokens.inParentheses, tokenize, tokens_eq_remaining]
  | succ pairs => rfl

/-! ## Readings -/

/-- Each pair of parentheses opens one expression more. -/
theorem Reads.inParentheses {e : Expr} {ts rest : Tokens} {d : Nat}
    (h : Reads False (.expression .lowest e) (ts ++ rest) rest d) (us : Tokens)
    (noCall : us.current.kind ≠ .openParen) (stops : Parser.climbs .lowest us.current.kind = false)
    (pairs : Nat) :
    Reads False (.expression .lowest e) (Tokens.inParentheses pairs ts ++ us) us (d + pairs) := by
  induction pairs generalizing us with
  | zero =>
    obtain ⟨c, split, again⟩ := h.behind
    obtain rfl : ts = c := List.append_cancel_right split
    simpa [Tokens.inParentheses] using again us (.inr ⟨noCall, stops⟩)
  | succ pairs ih =>
    have split : Tokens.inParentheses (pairs + 1) ts ++ us = Kind.openParen.token ::
        (Tokens.inParentheses pairs ts ++ Kind.closeParen.token :: us) := by
      rw [Tokens.inParentheses, List.replicate_succ, List.replicate_succ', Tokens.inParentheses]
      simp
    have inner := ih (Kind.closeParen.token :: us) nofun rfl
    rw [split]
    exact (Reads.grouped rfl inner rfl).lone .lowest stops

/-! ## Sources -/

/-- An expression as a statement, with the `;` that may stand behind it. -/
theorem Reads.exists_of_bare {lossy : Prop} {t : Token} {e : Expr} {ts rest : Tokens} {d : Nat}
    (h : Reads lossy (.statement (.expr t e)) ts rest d) :
    t = ts.current ∧ ∃ mid : Tokens, mid.skipping .semicolon = rest ∧
      Reads lossy (.expression .lowest e) ts mid d := by
  cases h with
  | bare value => exact ⟨rfl, _, rfl, value⟩

/-- Where a source does not end with a `;`, only the end of the input is in front of the end of the
input. -/
theorem eq_eof_of_skipping {src : Source} {mid : Tokens} (further : mid <:+ src.tokens)
    (last : ∀ u ∈ src.remaining.getLast?, u.kind ≠ .semicolon)
    (skipped : mid.skipping .semicolon = [Token.eof]) : mid = [Token.eof] := by
  by_cases mark : mid.current.kind = .semicolon
  · have front := Tokens.eq_cons_of_current (mark ▸ (by decide) : mid.current.kind ≠ .eof)
    rw [Tokens.skipping, if_pos mark] at skipped
    rw [skipped] at front
    obtain ⟨c, whole⟩ := further
    rw [front, tokens_eq_remaining, List.append_cons] at whole
    have before : src.remaining = c ++ [mid.current] := (List.append_cancel_right whole).symm
    exact absurd mark (last mid.current (by rw [before, List.getLast?_concat]; rfl))
  · rwa [Tokens.skipping_of_ne mark] at skipped

/-- A source that is one expression without a `;` is read as such up to its end, with as many
expressions open as the parser has opened. -/
theorem reads_of_parse {text : String} {t : Token} {e : Expr}
    (alone : parse text = (⟨[.expr t e]⟩, []))
    (last : ∀ u ∈ (ofString text).remaining.getLast?, u.kind ≠ .semicolon) :
    t = Tokens.current (tokenize text) ∧ e.height ≤ maxHeight ∧
      Reads False (.expression .lowest e) ((ofString text).remaining ++ [Token.eof]) [Token.eof]
        (Parser.program.run (tokenize text)).reach := by
  obtain ⟨m, recorded, reach, run⟩ := exists_run_program_ofSource (ofString text)
  have reach_eq : (Parser.program.run (tokenize text)).reach = reach := by rw [tokenize, run]
  rw [parse_of_run run] at alone
  obtain ⟨value, rfl⟩ := Prod.mk.inj alone
  have gives : Parser.program.Gives False (ofString text).tokens m [Token.eof] reach :=
    ⟨[], run, absurd rfl⟩
  obtain ⟨ss, rfl, within, reads⟩ := block_reads (expression_explained maxOpen) gives
  obtain rfl : ss = [.expr t e] := Program.mk.inj value
  rw [reach_eq, ← tokens_eq_remaining]
  cases reads with
  | drop loses _ _ => exact loses.elim
  | keep _ statement none =>
    cases none with
    | drop loses _ _ => exact loses.elim
    | finish =>
      obtain ⟨token, mid, skipped, expression⟩ := statement.exists_of_bare
      obtain rfl := eq_eof_of_skipping expression.suffix last skipped
      refine ⟨token, ?_, by rwa [Nat.max_zero]⟩
      simpa [Stmt.highest, Stmt.height] using within

/-- What is read as one expression of an allowed height is parsed as such exactly if there is room for
the expressions that are open. -/
theorem Reads.parse_expression {text : String} {e : Expr} {d : Nat} (within : e.height ≤ maxHeight)
    (h : Reads False (.expression .lowest e) (tokenize text) [Token.eof] d) :
    (d ≤ maxOpen ∧ MonkeySyntax.parse text = (⟨[.expr (Tokens.current (tokenize text)) e]⟩, [])) ∨
    (maxOpen < d ∧ (MonkeySyntax.parse text).2.head? = some (.nestingTooDeep maxHeight)) := by
  have statement := Reads.bare h
  rw [Tokens.skipping_of_ne (by decide)] at statement
  have program := Reads.keep (statement.inBlock false) statement (.finish rfl)
  rw [Nat.max_zero] at program
  have fits : Fits maxOpen (Stmt.highest [.expr (Tokens.current (tokenize text)) e]) d ↔
      d ≤ maxOpen := by
    simp [Fits, Stmt.highest, Stmt.height, within]
  rw [← Nat.not_le, ← fits]
  exact Reads.parse program

/-- A source that is one expression without a `;` may be put into parentheses. The parser accepts it in
as many pairs as there is room for besides the expressions that are open on its own. Then the tree
is the same; only the statement starts with a parenthesis. In more pairs, the first error is that
expressions are nested too deeply. The count of open expressions is that of the machine. -/
theorem parse_inParentheses {text : String} {t : Token} {e : Expr}
    (alone : parse text = (⟨[.expr t e]⟩, []))
    (last : ∀ u ∈ (ofString text).remaining.getLast?, u.kind ≠ .semicolon) (pairs : Nat) :
    let deepest := (Parser.program.run (tokenize text)).reach
    IsGreatest {d | ∃ c, Reaches (.run (.block false) (.done : Machine.Stack _ _)
        (Machine.State.ofSource (ofString text))) c ∧ c.state.depth = d} deepest ∧
      ((parse (inParentheses pairs text)).2 = [] ↔ deepest + pairs ≤ maxOpen) ∧
      (deepest + pairs ≤ maxOpen → parse (inParentheses pairs text) =
        (⟨[.expr (if pairs = 0 then t else Kind.openParen.token) e]⟩, [])) ∧
      (maxOpen < deepest + pairs →
        (parse (inParentheses pairs text)).2.head? = some (.nestingTooDeep maxHeight)) := by
  intro deepest
  obtain ⟨rfl, within, reads⟩ := reads_of_parse alone last
  have wrapped := reads.inParentheses [Token.eof] (by decide) (by decide) pairs
  rw [← tokenize_inParentheses] at wrapped
  refine ⟨Machine.isGreatest_reach (ofString text), ?_⟩
  rcases wrapped.parse_expression within with ⟨room, parsed⟩ | ⟨beyond, tooDeep⟩
  · rw [current_inParentheses] at parsed
    refine ⟨?_, fun _ => parsed, fun beyond => absurd room (Nat.not_le_of_lt beyond)⟩
    rw [parsed]
    exact iff_of_true rfl room
  · refine ⟨?_, fun room => absurd room (Nat.not_le_of_lt beyond), fun _ => tooDeep⟩
    refine iff_of_false (fun none => ?_) (Nat.not_le_of_lt beyond)
    rw [none] at tooDeep
    cases tooDeep

/-- A name behind a sign is two expressions inside one another, which leaves room for two pairs of
parentheses less than expressions may be open. -/
theorem parse_inParentheses_sign :
    parse "-a" = (⟨[.expr Kind.minus.token
        (.unary Kind.minus.token .neg (.ident (Ident.ofToken ⟨.identifier, "a"⟩)))]⟩, []) ∧
      (∀ u ∈ (ofString "-a").remaining.getLast?, u.kind ≠ .semicolon) ∧
      (parse (inParentheses 511 "-a")).2 = [] ∧
      (parse (inParentheses 512 "-a")).2.head? = some (.nestingTooDeep maxHeight) := by
  have alone : parse "-a" = (⟨[.expr Kind.minus.token
      (.unary Kind.minus.token .neg (.ident (Ident.ofToken ⟨.identifier, "a"⟩)))]⟩, []) := by
    decide +kernel
  have last : ∀ u ∈ (ofString "-a").remaining.getLast?, u.kind ≠ .semicolon := by decide +kernel
  have deepest : (Parser.program.run (tokenize "-a")).reach = 2 := by decide +kernel
  obtain ⟨-, accepted, -, -⟩ := parse_inParentheses alone last 511
  obtain ⟨-, -, -, tooDeep⟩ := parse_inParentheses alone last 512
  rw [deepest] at accepted tooDeep
  exact ⟨alone, last, accepted.mpr (by decide), tooDeep (by decide)⟩

end MonkeySyntax
