import MonkeySyntax.Proofs.Tree
import MonkeySyntax.Tree.Canonical

/-!
# Separators in canonical text

Canonical text has a mark behind every statement and between any two arguments or parameters. Here it
is taken apart into these marks and the text around them, so that it can be said that some of the marks
are missing.

* `Program.pieces` — the pieces of a program's canonical text, in order; put together they are that text
  (`Program.join_pieces`).
* `Expr.needsMark` — the one place where a mark has to be there: between a name and a text that starts
  with a parenthesis, which would make a call of the two.
* `Program.Loosened` — canonical text with a space in the place of any other marks; of
  `Program.loosest`, with a space in the place of all of them.
-/

namespace MonkeySyntax

/-- A piece of text. -/
inductive Piece where
  /-- Text that is always there. -/
  | fixed (text : String)
  /-- The mark of some kind, and whether it has to be there. -/
  | mark (kind : Kind) (needed : Bool)

/-- The piece as canonical text has it. -/
def Piece.text : Piece → String
  | .fixed text => text
  | .mark kind _ => kind.token.literal

/-- The piece with a space in its place if it is a mark that is not needed. -/
def Piece.loosest : Piece → String
  | .mark _ false => " "
  | p => p.text

/-- The text is made of the pieces, where a space may stand in the place of a mark that is not needed. -/
inductive Loosened : List Piece → String → Prop
  | nil : Loosened [] ""
  | keep (p : Piece) {ps : List Piece} {text : String} :
    Loosened ps text → Loosened (p :: ps) (p.text ++ text)
  | drop (kind : Kind) {ps : List Piece} {text : String} :
    Loosened ps text → Loosened (.mark kind false :: ps) (" " ++ text)

namespace Loosened

variable {ps qs : List Piece} {text : String}

/-- All marks may be kept. -/
theorem join_text (ps : List Piece) : Loosened ps (String.join (ps.map Piece.text)) := by
  induction ps with
  | nil => exact .nil
  | cons p ps ih => simpa using Loosened.keep p ih

/-- All marks that are not needed may be missing. -/
theorem join_loosest (ps : List Piece) : Loosened ps (String.join (ps.map Piece.loosest)) := by
  induction ps with
  | nil => exact .nil
  | cons p ps ih =>
    rw [List.map_cons, String.join_cons]
    cases p with
    | fixed s => exact .keep (.fixed s) ih
    | mark kind needed =>
      cases needed with
      | false => exact .drop kind ih
      | true => exact .keep (.mark kind true) ih

theorem of_append (h : Loosened (ps ++ qs) text) :
    ∃ before behind, text = before ++ behind ∧ Loosened ps before ∧ Loosened qs behind := by
  induction ps generalizing text with
  | nil => exact ⟨"", text, by simp, .nil, h⟩
  | cons p ps ih =>
    cases h with
    | keep _ later =>
      obtain ⟨before, behind, rfl, first, second⟩ := ih later
      exact ⟨p.text ++ before, behind, by rw [String.append_assoc], .keep p first, second⟩
    | drop kind later =>
      obtain ⟨before, behind, rfl, first, second⟩ := ih later
      exact ⟨" " ++ before, behind, by rw [String.append_assoc], .drop kind first, second⟩

theorem of_fixed {s : String} (h : Loosened (.fixed s :: ps) text) :
    ∃ later, text = s ++ later ∧ Loosened ps later := by
  cases h with
  | keep _ later => exact ⟨_, rfl, later⟩

theorem of_nil (h : Loosened [] text) : text = "" := by
  cases h
  rfl

theorem of_last {s : String} (h : Loosened [.fixed s] text) : text = s := by
  obtain ⟨later, rfl, nothing⟩ := h.of_fixed
  rw [nothing.of_nil, String.append_empty]

/-- What stands between two pieces that are always there. -/
theorem of_enclosed {s s' : String} (h : Loosened (.fixed s :: ps ++ [.fixed s']) text) :
    ∃ inner, text = s ++ inner ++ s' ∧ Loosened ps inner := by
  obtain ⟨before, behind, rfl, first, last⟩ := h.of_append
  obtain ⟨inner, rfl, inside⟩ := first.of_fixed
  exact ⟨inner, by rw [last.of_last], inside⟩

/-- What stands between three pieces that are always there. -/
theorem of_enclosed_twice {s s' s'' : String}
    (h : Loosened (.fixed s :: ps ++ .fixed s' :: qs ++ [.fixed s'']) text) :
    ∃ first second, text = s ++ first ++ s' ++ second ++ s'' ∧ Loosened ps first ∧
      Loosened qs second := by
  obtain ⟨before, last, rfl, inside, closes⟩ := h.of_append
  obtain ⟨before, behind, rfl, opens, follows⟩ := inside.of_append
  obtain ⟨first, rfl, writtenFirst⟩ := opens.of_fixed
  obtain ⟨second, rfl, writtenSecond⟩ := follows.of_fixed
  refine ⟨first, second, ?_, writtenFirst, writtenSecond⟩
  simp only [closes.of_last, String.append_assoc]

theorem of_mark {kind : Kind} {needed : Bool} (h : Loosened (.mark kind needed :: ps) text) :
    ∃ later, Loosened ps later ∧
      (text = kind.token.literal ++ later ∨ needed = false ∧ text = " " ++ later) := by
  cases h with
  | keep _ later => exact ⟨_, later, .inl rfl⟩
  | drop _ later => exact ⟨_, later, .inr ⟨rfl, rfl⟩⟩

end Loosened

/-! ## Pieces of canonical text -/

/-- Whether the expression is nothing but a name. -/
def Expr.isName : Expr → Bool
  | .ident _ => true
  | _ => false

/-- Whether there has to be a mark between the expression and what follows it, of which `next` is the
canonical text: a name in front of a parenthesis is a callee. -/
def Expr.needsMark (e : Expr) (next : String) : Bool :=
  e.isName && next.toList.head? = some '('

/-- The pieces of a parameter list. No parameter starts with a parenthesis. -/
def Ident.listPieces : List Ident → List Piece
  | [] => []
  | [p] => [.fixed p.name]
  | p :: p' :: ps =>
    .fixed p.name :: .mark .comma false :: .fixed " " :: Ident.listPieces (p' :: ps)

mutual

/-- The pieces of an expression's canonical text. -/
def Expr.pieces : Expr → List Piece
  | .ident name => [.fixed name.name]
  | .int token _ => [.fixed token.literal]
  | .bool token _ => [.fixed token.literal]
  | .unary _ op operand => .fixed ("(" ++ op.symbol) :: operand.pieces ++ [.fixed ")"]
  | .binary _ left op right =>
    .fixed "(" :: left.pieces ++ .fixed (" " ++ op.symbol ++ " ") :: right.pieces ++ [.fixed ")"]
  | .call callee args => .fixed (callee.name ++ "(") :: Expr.listPieces args ++ [.fixed ")"]
  | .fn token params body =>
    .fixed (token.literal ++ " (") :: Ident.listPieces params
      ++ .fixed ") \x7b " :: Stmt.listPieces body ++ [.fixed " \x7d"]

/-- The pieces of an argument list. -/
def Expr.listPieces : List Expr → List Piece
  | [] => []
  | [e] => e.pieces
  | e :: e' :: es =>
    e.pieces ++ .mark .comma (e.needsMark e'.canonical) :: .fixed " " :: Expr.listPieces (e' :: es)

/-- The pieces of a statement's canonical text, without the mark behind it. -/
def Stmt.pieces : Stmt → List Piece
  | .binding token name value =>
    .fixed (token.literal ++ " " ++ name.name ++ " = ") :: value.pieces
  | .ret token value => .fixed (token.literal ++ " ") :: value.pieces
  | .expr _ value => value.pieces

/-- The pieces of several statements, each with the mark behind it. -/
def Stmt.listPieces : List Stmt → List Piece
  | [] => []
  | s :: ss =>
    s.pieces ++ .mark .semicolon (ss.head?.any fun next => s.value.needsMark next.canonical)
      :: Stmt.listPieces ss

end

/-- The pieces of a program's canonical text. -/
def Program.pieces (p : Program) : List Piece := Stmt.listPieces p.statements

/-- The text is the program's canonical text, where a space stands in the place of any marks but those
between a name and a parenthesis. -/
def Program.Loosened (p : Program) (text : String) : Prop := MonkeySyntax.Loosened p.pieces text

/-- The program's text with no marks but those that are needed. -/
def Program.loosest (p : Program) : String := String.join (p.pieces.map Piece.loosest)

theorem Program.loosened_loosest (p : Program) : p.Loosened p.loosest :=
  Loosened.join_loosest p.pieces

/-! ## Canonical text -/

theorem Ident.join_listPieces (params : List Ident) :
    String.join ((Ident.listPieces params).map Piece.text) =
      ", ".intercalate (params.map Ident.name) := by
  induction params with
  | nil => rfl
  | cons p params ih =>
    cases params with
    | nil => simp [Ident.listPieces, Piece.text]
    | cons p' params =>
      have comma : ", " = Kind.comma.token.literal ++ " " := rfl
      simp only [Ident.listPieces, List.map_cons, String.join_cons, Piece.text] at ih ⊢
      rw [ih, String.intercalate_cons_cons, comma]
      simp only [String.append_assoc]

theorem Expr.join_listPieces_of_pieces {es : List Expr}
    (h : ∀ e ∈ es, String.join (e.pieces.map Piece.text) = e.canonical) :
    String.join ((Expr.listPieces es).map Piece.text) = ", ".intercalate (es.map Expr.canonical) := by
  induction es with
  | nil => rfl
  | cons e es ih =>
    have first := h e List.mem_cons_self
    have later := ih fun e' he => h e' (List.mem_cons_of_mem e he)
    cases es with
    | nil => simpa [Expr.listPieces] using first
    | cons e' es =>
      have comma : ", " = Kind.comma.token.literal ++ " " := rfl
      simp only [Expr.listPieces, List.map_append, List.map_cons, String.join_append,
        String.join_cons, Piece.text]
      rw [first, later, List.map_cons, String.intercalate_cons_cons, comma]
      simp only [String.append_assoc]

/-- The pieces of a statement are its text up to the mark, if those of its value are. -/
theorem Stmt.join_pieces_of_value {s : Stmt}
    (h : String.join (s.value.pieces.map Piece.text) = s.value.canonical) :
    String.join (s.pieces.map Piece.text) ++ Kind.semicolon.token.literal = s.canonical := by
  have mark : Kind.semicolon.token.literal = ";" := rfl
  cases s <;> simp only [Stmt.value] at h <;>
    simp [Stmt.pieces, Stmt.canonical, Piece.text, h, mark, String.append_assoc]

theorem Stmt.join_listPieces_of_values {ss : List Stmt}
    (h : ∀ s ∈ ss, String.join (s.value.pieces.map Piece.text) = s.value.canonical) :
    String.join ((Stmt.listPieces ss).map Piece.text) = String.join (ss.map Stmt.canonical) := by
  induction ss with
  | nil => rfl
  | cons s ss ih =>
    have first := Stmt.join_pieces_of_value (h s List.mem_cons_self)
    have later := ih fun s' hs => h s' (List.mem_cons_of_mem s hs)
    simp only [Stmt.listPieces, List.map_append, List.map_cons, String.join_append,
      String.join_cons, Piece.text]
    rw [← String.append_assoc, first, later]

theorem Expr.join_pieces (e : Expr) : String.join (e.pieces.map Piece.text) = e.canonical := by
  induction e with
  | ident name => simp [Expr.pieces, Piece.text, Expr.canonical]
  | int token value => simp [Expr.pieces, Piece.text, Expr.canonical]
  | bool token value => simp [Expr.pieces, Piece.text, Expr.canonical]
  | unary token op operand ih =>
    simp [Expr.pieces, Piece.text, Expr.canonical, ih, String.append_assoc]
  | binary token left op right ihLeft ihRight =>
    simp [Expr.pieces, Piece.text, Expr.canonical, ihLeft, ihRight, String.append_assoc]
  | call callee args ih =>
    simp [Expr.pieces, Piece.text, Expr.canonical_call, Expr.join_listPieces_of_pieces ih,
      String.append_assoc]
  | fn token params body ih =>
    simp [Expr.pieces, Piece.text, Expr.canonical_fn, Program.canonical, Ident.join_listPieces,
      Stmt.join_listPieces_of_values ih, String.append_assoc]

/-- Put together, the pieces are the canonical text. -/
theorem Program.join_pieces (p : Program) :
    String.join (p.pieces.map Piece.text) = p.canonical :=
  Stmt.join_listPieces_of_values fun s _ => Expr.join_pieces s.value

/-- Canonical text itself is one way of writing it. -/
theorem Program.loosened_canonical (p : Program) : p.Loosened p.canonical :=
  p.join_pieces ▸ Loosened.join_text p.pieces

end MonkeySyntax
