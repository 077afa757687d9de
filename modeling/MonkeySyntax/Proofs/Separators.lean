import MonkeySyntax.Proofs.Reading.Loosened
import MonkeySyntax.Proofs.RoundTrip

/-!
# Optional separators

* `parse_loosened` — any semicolons and commas of canonical text may be missing, but those between a
  name and a parenthesis.
* `parse_name_operation` — those may not: without the mark, the name is the callee of a call.
-/

namespace MonkeySyntax

/-- Separators are optional: canonical text in which any marks are replaced by a space is parsed as the
program, as long as no name comes to stand in front of a parenthesis. -/
theorem parse_loosened {p : Program} (h : p.WellFormed)
    (within : ∀ s ∈ p.statements, s.height ≤ maxHeight) {text : String}
    (loosened : p.Loosened text) : (parse text).2 = [] ∧ (parse text).1.Alike p := by
  obtain ⟨d, bound, reads⟩ := Program.reads_loosened h loosened
  rw [Program.parse_of_reads (Stmt.highest_le_iff.mpr within) bound reads]
  exact ⟨rfl, Program.alike_retoken _ p⟩

/-- The name, with the token that spells it. -/
def Ident.named (name : String) : Ident := ⟨⟨.identifier, name⟩, name⟩

/-- A function of two statements, a call of it, and a name in front of an operation. -/
def separatedProgram : Program :=
  ⟨[.binding Kind.letWord.token (.named "f")
      (.fn Kind.fnWord.token [.named "x", .named "y"]
        [.expr Token.eof (.named "x"), .ret Kind.returnWord.token (.named "y")]),
    .expr Token.eof (.call (.named "f")
      [.named "a", .named "b", .unary Kind.minus.token .neg (.named "c")]),
    .expr Token.eof (.named "d"),
    .expr Token.eof (.unary Kind.minus.token .neg (.named "e"))]⟩

theorem wellFormed_separatedProgram : separatedProgram.WellFormed := by
  have ident (name : String) (h : IsName name) : (Ident.named name).WellFormed := ⟨rfl, rfl, h⟩
  have named (name : String) (h : IsName name) : (Expr.named name).WellFormed :=
    ⟨ident name h, trivial⟩
  have opposite (name : String) (h : IsName name) :
      (Expr.unary Kind.minus.token .neg (.named name)).WellFormed := ⟨⟨rfl, trivial⟩, named name h⟩
  have params : ∀ p ∈ [Ident.named "x", .named "y"], p.WellFormed :=
    List.forall_mem_cons.mpr
      ⟨ident "x" (by decide), List.forall_mem_singleton.mpr (ident "y" (by decide))⟩
  have function : (Expr.fn Kind.fnWord.token [.named "x", .named "y"]
      [.expr Token.eof (.named "x"), .ret Kind.returnWord.token (.named "y")]).WellFormed :=
    ⟨⟨⟨rfl, params⟩, trivial⟩, ⟨trivial, named "x" (by decide)⟩, ⟨rfl, named "y" (by decide)⟩,
      trivial⟩
  have call : (Expr.call (.named "f")
      [.named "a", .named "b", .unary Kind.minus.token .neg (.named "c")]).WellFormed :=
    ⟨⟨ident "f" (by decide), trivial⟩, named "a" (by decide), named "b" (by decide),
      opposite "c" (by decide), trivial⟩
  intro s hs
  simp only [separatedProgram, List.mem_cons, List.not_mem_nil, or_false] at hs
  rcases hs with rfl | rfl | rfl | rfl
  · exact ⟨⟨rfl, ident "f" (by decide)⟩, function⟩
  · exact ⟨trivial, call⟩
  · exact ⟨trivial, named "d" (by decide)⟩
  · exact ⟨trivial, opposite "e" (by decide)⟩

/-- All marks are missing but the two that keep `b` and `d` from being called. -/
theorem parse_loosest_separatedProgram :
    separatedProgram.WellFormed ∧ (∀ s ∈ separatedProgram.statements, s.height ≤ maxHeight) ∧
    separatedProgram.canonical =
      "let f = fn (x, y) \x7b x;return y; \x7d;f(a, b, (-c));d;(-e);" ∧
    separatedProgram.Loosened
      "let f = fn (x  y) \x7b x return y  \x7d f(a  b, (-c)) d;(-e) " ∧
    (parse "let f = fn (x  y) \x7b x return y  \x7d f(a  b, (-c)) d;(-e) ").2 = [] ∧
    (parse "let f = fn (x  y) \x7b x return y  \x7d f(a  b, (-c)) d;(-e) ").1.Alike
      separatedProgram := by
  have loosest : separatedProgram.loosest =
      "let f = fn (x  y) \x7b x return y  \x7d f(a  b, (-c)) d;(-e) " := by decide +kernel
  have loosened := loosest ▸ separatedProgram.loosened_loosest
  exact ⟨wellFormed_separatedProgram, by decide, by decide +kernel, loosened,
    parse_loosened wellFormed_separatedProgram (by decide) loosened⟩

/-! ## The marks that are needed -/

/-- What is read as an operand in parentheses is behind a name the argument of a call. -/
theorem Reads.call_of_grouped {lossy : Prop} {t : Token} {e : Expr} {ts rest : Tokens} {d : Nat}
    (name : t.kind = .identifier) (paren : ts.current.kind = .openParen)
    (h : Reads lossy (.operand e) ts rest d) :
    Reads lossy (.operand (.call (Ident.ofToken t) [e])) (t :: ts) rest d := by
  cases h with
  | grouped opens inside closes =>
    rename_i o c ts
    have skipped : Tokens.skipping .comma (c :: rest) = c :: rest :=
      Tokens.skipping_of_ne (by rw [Tokens.current_cons, closes]; decide)
    have none : Reads lossy (.arguments []) (Tokens.skipping .comma (c :: rest)) (c :: rest) 0 := by
      rw [skipped]
      exact .noArguments (by rw [Tokens.current_cons, closes]; rfl)
    have whole := Reads.call name opens (.argument inside none) closes
    rwa [Nat.max_zero] at whole
  | @unary t' op _ _ _ _ kind _ =>
    have sign : op.kind = .openParen := kind.symm.trans paren
    cases op <;> cases sign
  | @boolean t' value _ kind =>
    have word := kind.symm.trans paren
    cases value <;> cases word
  | integer kind _ => cases kind.symm.trans paren
  | name kind _ => cases kind.symm.trans paren
  | call kind _ _ _ => cases kind.symm.trans paren
  | function kind _ _ _ _ _ _ => cases kind.symm.trans paren

/-- Between a name and an operation the mark is needed: with a space in its place, the text of two
statements is that of a call of the name, with the operation as its argument. -/
theorem parse_name_operation {name : Ident} (isName : name.WellFormed) {e : Expr} (h : e.WellFormed)
    (operation : e.isOperation = true) (within : e.height < maxHeight) :
    parse (name.name ++ " " ++ e.canonical ++ ";") =
      (⟨[.expr name.token (.call name [e.retoken (Expr.leadingToken .full)])]⟩, []) := by
  have semicolon := Source.tokens_semicolon []
  rw [Source.tokens_nil] at semicolon
  have ends := e.endsBefore_token (Source.separates_ofString ";" rfl (by decide) []) semicolon
    (by decide)
  have inFront : e.ReadsLoosened False := Expr.readsLoosened h
  obtain ⟨front, d, bound, reads⟩ := inFront (e.join_pieces ▸ Loosened.join_text e.pieces) ends
  have paren : (e.leadingToken .full).kind = .openParen := by cases e <;> cases operation <;> rfl
  rw [semicolon] at reads
  have call := reads.call_of_grouped isName.kind_eq (front ▸ paren)
  rw [isName.ofToken_token] at call
  have statement := Reads.bare (call.lone .lowest rfl)
  have block := Reads.keep (statement.inBlock false) statement (.finish rfl)
  let p : Program := ⟨[.expr Token.eof (.call name [e])]⟩
  have height : Stmt.highest p.statements = e.height + 1 := by
    simp [p, Stmt.highest, Stmt.height, Expr.height, Expr.highest]
  have text : Source.tokens (Source.ofString (name.name ++ " " ++ e.canonical ++ ";")) =
      name.token :: Source.tokens (Source.ofString e.canonical ++ (Source.ofString ";" ++ [])) := by
    simp only [Source.ofString_append, List.append_assoc]
    rw [isName.tokens_ofString (Source.separates_ofString " " rfl (by decide) _),
      Source.tokens_space, List.append_nil]
  have whole : Reads False (.block false (p.retoken (Expr.leadingToken .full)).statements)
      (Source.ofString (name.name ++ " " ++ e.canonical ++ ";")).tokens [Token.eof]
      (max (d + 1) 0) := by
    rw [text]
    exact block
  exact Program.parse_of_reads (by rw [height]; exact within) (by rw [height]; omega) whole

end MonkeySyntax
