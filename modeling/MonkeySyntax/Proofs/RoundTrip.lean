import Mathlib.Logic.Function.Iterate
import MonkeySyntax.Proofs.Reading.Written
import MonkeySyntax.Proofs.Reading.Session
import MonkeySyntax.Proofs.Reading.WellFormed

/-!
# Round trips

Parsing undoes printing.

* `parseFile_canonical` — the canonical text of a well-formed program is accepted exactly if no
  expression in it is higher than the limit, and parses to the program.
* `parse_canonical_parse` — what the parser returns for any source, broken or not, survives printing
  and parsing, and doing so twice changes nothing more.
* `parse_minimal` — a program is also parsed from text with no more parentheses than precedence and
  associativity make necessary.

All hold up to the tokens of expression statements, of which the text says nothing. Canonical text and
minimal text are two styles of parentheses; what they share is shown of all styles
(`parse_written_of_within`, `parse_written_of_beyond`).
-/

namespace MonkeySyntax

/-! ## Any style of parentheses -/

/-- A text whose tokens read as a program within the height limit is parsed as that program: the limit
on open expressions never gets in the way. -/
theorem Program.parse_of_reads {p : Program} {f : Expr → Token} {text : String} {rest : Tokens}
    {d : Nat} (within : Stmt.highest p.statements ≤ maxHeight)
    (bound : d ≤ 2 * Stmt.highest p.statements + 1)
    (reads : Reads False (.block false (p.retoken f).statements) (Source.ofString text).tokens
      rest d) : parse text = (p.retoken f, []) := by
  rcases reads.parse with ⟨-, parsed⟩ | ⟨beyond, -⟩
  · exact parsed
  · refine absurd ⟨?_, ?_⟩ beyond
    · rwa [Program.highest_retoken]
    · -- twice the height limit and one more: the depth needs no more room than there is
      rw [maxOpen]
      omega

section

variable {p : Program} (style : Style)

/-- In whatever style a well-formed program within the height limit is written, it is accepted. -/
theorem parse_written_of_within (h : p.WellFormed)
    (within : Stmt.highest p.statements ≤ maxHeight) :
    parse (p.written style) = (p.retoken (Expr.leadingToken style), []) := by
  obtain ⟨d, bound, reads⟩ := Program.reads_written style h
  rw [← Program.tokenize_written style fun s hs => (h s hs).printable] at reads
  exact Program.parse_of_reads within bound reads

/-- If it is not within the height limit, the first error is that expressions are nested too deeply. -/
theorem parse_written_of_beyond (h : p.WellFormed)
    (beyond : ¬Stmt.highest p.statements ≤ maxHeight) :
    (parse (p.written style)).2.head? = some (.nestingTooDeep maxHeight) := by
  obtain ⟨d, -, reads⟩ := Program.reads_written style h
  rw [← Program.tokenize_written style fun s hs => (h s hs).printable] at reads
  rcases reads.parse with ⟨fits, -⟩ | ⟨-, tooDeep⟩
  · rw [Fits, Program.highest_retoken] at fits
    exact absurd fits.1 beyond
  · exact tooDeep

end

/-! ## Canonical text -/

/-- The first token of an expression in canonical form. -/
def Expr.firstToken (e : Expr) : Token := e.leadingToken .full

theorem parse_canonical_of_within {p : Program} (h : p.WellFormed)
    (within : Stmt.highest p.statements ≤ maxHeight) :
    parse p.canonical = (p.retoken Expr.firstToken, []) := by
  rw [Program.canonical_eq_written]
  exact parse_written_of_within .full h within

theorem parse_canonical_of_beyond {p : Program} (h : p.WellFormed)
    (beyond : ¬Stmt.highest p.statements ≤ maxHeight) :
    (parse p.canonical).2.head? = some (.nestingTooDeep maxHeight) := by
  rw [Program.canonical_eq_written]
  exact parse_written_of_beyond .full h beyond

/-- Parsing undoes printing, up to the height limit exactly. -/
theorem parseFile_canonical {p : Program} (h : p.WellFormed) (file : String) :
    ((∃ q, parseFile file p.canonical = .ok q) ↔ ∀ s ∈ p.statements, s.height ≤ maxHeight) ∧
    (∀ q, parseFile file p.canonical = .ok q → q.Alike p) ∧
    ∀ failure, parseFile file p.canonical = .error failure →
      failure.errors.head? = some (.nestingTooDeep maxHeight) := by
  rw [← Stmt.highest_le_iff]
  by_cases within : Stmt.highest p.statements ≤ maxHeight
  · have parsed := parse_canonical_of_within h within
    have accepted : parseFile file p.canonical = .ok (p.retoken Expr.firstToken) :=
      parseFile_eq_ok_iff.mpr parsed
    rw [accepted]
    refine ⟨⟨fun _ => within, fun _ => ⟨_, rfl⟩⟩, ?_, ?_⟩
    · rintro q ⟨⟩
      exact Program.alike_retoken _ p
    · intro failure failed
      cases failed
  · have tooDeep := parse_canonical_of_beyond h within
    have refused (q : Program) : parseFile file p.canonical ≠ .ok q := by
      intro accepted
      rw [parseFile_eq_ok_iff.mp accepted] at tooDeep
      cases tooDeep
    refine ⟨⟨?_, fun h => absurd h within⟩, ?_, ?_⟩
    · rintro ⟨q, accepted⟩
      exact absurd accepted (refused q)
    · intro q accepted
      exact absurd accepted (refused q)
    · intro failure failed
      obtain ⟨rfl, -⟩ := parseFile_eq_error_iff.mp failed
      exact tooDeep

/-- A number behind `n` minus signs, as a program. -/
def minusSigns (n : Nat) : Program :=
  ⟨[.expr Token.eof ((Expr.unary (Kind.minus.token) .neg)^[n] (.int ⟨.integer, "1"⟩ 1))]⟩

theorem wellFormed_minusSigns (n : Nat) : (minusSigns n).WellFormed := by
  have signs : ((Expr.unary (Kind.minus.token) .neg)^[n] (.int ⟨.integer, "1"⟩ 1)).WellFormed := by
    induction n with
    | zero => exact ⟨⟨rfl, by decide⟩, by decide⟩
    | succ n ih =>
      rw [Function.iterate_succ_apply']
      exact ⟨⟨rfl, trivial⟩, ih⟩
  exact List.forall_mem_singleton.mpr (Stmt.wellFormed_iff.mpr ⟨trivial, signs⟩)

theorem height_minusSigns (n : Nat) : ∀ s ∈ (minusSigns n).statements, s.height = n := by
  refine List.forall_mem_singleton.mpr ?_
  show ((Expr.unary (Kind.minus.token) .neg)^[n] (.int ⟨.integer, "1"⟩ 1)).height = n
  induction n with
  | zero => rfl
  | succ n ih => rw [Function.iterate_succ_apply', Expr.height, ih]

/-- At the limit the text is accepted, one minus sign further it is refused. -/
theorem parseFile_canonical_minusSigns :
    (minusSigns 256).WellFormed ∧ (∃ q, parseFile "" (minusSigns 256).canonical = .ok q) ∧
    (minusSigns 257).WellFormed ∧ ¬∃ q, parseFile "" (minusSigns 257).canonical = .ok q := by
  have atLimit := parseFile_canonical (wellFormed_minusSigns 256) ""
  have beyond := parseFile_canonical (wellFormed_minusSigns 257) ""
  refine ⟨wellFormed_minusSigns 256, atLimit.1.mpr fun s hs => ?_, wellFormed_minusSigns 257,
    fun accepted => ?_⟩
  · exact Nat.le_of_eq (height_minusSigns 256 s hs)
  · have low := beyond.1.mp accepted _ List.mem_cons_self
    rw [height_minusSigns 257 _ List.mem_cons_self] at low
    exact absurd low (by decide)

/-- Whatever the source is: the program that could be read of it prints to a text that is accepted, and
parses to the program again up to the tokens of expression statements. Its own text is the same, so it
parses to itself. -/
theorem parse_canonical_parse (file text : String) :
    let p := (parse text).1
    ∃ q, parseFile file p.canonical = .ok q ∧ q.Alike p ∧ q.canonical = p.canonical ∧
      parseFile file q.canonical = .ok q := by
  intro p
  -- statements may have been left out, but those that are kept have been read within the limit
  obtain ⟨rest, d, reads, within⟩ := reads_parse True text fun _ => trivial
  have wf : p.WellFormed :=
    reads.wellFormed fun t ht => Source.lexical_of_mem_tokens ht
  have accepted : parseFile file p.canonical = .ok (p.retoken Expr.firstToken) :=
    parseFile_eq_ok_iff.mpr (parse_canonical_of_within wf within)
  have same := Program.canonical_retoken Expr.firstToken p
  exact ⟨_, accepted, Program.alike_retoken _ p, same, same ▸ accepted⟩

/-! ## Minimal text -/

/-- Precedence and associativity are those of the table: where it makes parentheses unnecessary they may
be left out, and the program is parsed as before. -/
theorem parse_minimal {p : Program} (h : p.WellFormed)
    (within : ∀ s ∈ p.statements, s.height ≤ maxHeight) :
    (parse p.minimal).2 = [] ∧ (parse p.minimal).1.Alike p := by
  have parsed : parse p.minimal = (p.retoken (Expr.leadingToken .minimal), []) :=
    parse_written_of_within .minimal h (Stmt.highest_le_iff.mpr within)
  rw [parsed]
  exact ⟨rfl, Program.alike_retoken _ p⟩

/-- A reference to a name. -/
def Expr.named (name : String) : Expr := .ident ⟨⟨.identifier, name⟩, name⟩

/-- `a` less `b`, less the product of `c` and the opposite of the sum of `d` and `e`. -/
def mixedOperators : Program :=
  ⟨[.expr Token.eof
    (.binary (Kind.token .minus) (.binary (Kind.token .minus) (.named "a") .sub (.named "b")) .sub
      (.binary (Kind.token .asterisk) (.named "c") .mul
        (.unary (Kind.token .minus) .neg
          (.binary (Kind.token .plus) (.named "d") .add (.named "e")))))]⟩

theorem wellFormed_mixedOperators : mixedOperators.WellFormed := by
  have named (name : String) (h : IsName name) : (Expr.named name).WellFormed :=
    ⟨⟨rfl, rfl, h⟩, trivial⟩
  have binary (op : BinaryOp) {left right : Expr} (h : left.WellFormed) (h' : right.WellFormed) :
      (Expr.binary op.kind.token left op right).WellFormed := ⟨⟨rfl, trivial⟩, h, h'⟩
  have difference := binary .sub (named "a" (by decide)) (named "b" (by decide))
  have sum := binary .add (named "d" (by decide)) (named "e" (by decide))
  have opposite : (Expr.unary (Kind.token .minus) .neg _).WellFormed := ⟨⟨rfl, trivial⟩, sum⟩
  have product := binary .mul (named "c" (by decide)) opposite
  exact List.forall_mem_singleton.mpr ⟨trivial, binary .sub difference product⟩

/-- Only the sum behind the sign is written in parentheses. -/
theorem parse_minimal_mixedOperators :
    mixedOperators.WellFormed ∧ mixedOperators.minimal = "a - b - c * -(d + e);" ∧
      (parse mixedOperators.minimal).2 = [] ∧ (parse mixedOperators.minimal).1.Alike mixedOperators :=
  ⟨wellFormed_mixedOperators, by decide +kernel, parse_minimal wellFormed_mixedOperators (by decide)⟩

end MonkeySyntax
