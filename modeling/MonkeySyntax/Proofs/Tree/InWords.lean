import MonkeySyntax.Proofs.Datum.Literals
import MonkeySyntax.Proofs.Tree.Datum

/-!
# Dumps in words tell everything of a tree

`inWords_eq_iff` — programs with the same dump in words are the same, tokens included, whether the dump
is on one line or is the indented one that is printed. In both, the string literals are the texts of the
program in quotes, without any line break, so that indentation does not reach into them.

The names of nodes tell the nodes apart (`told_of_title_ne`), and the parts of a node are told apart one
by one (`ToldFields.cons`); this holds with any layout.
-/

namespace MonkeySyntax

open Datum

/-! ## Names -/

theorem Kind.isTitle_name (kind : Kind) : IsTitle kind.name := by
  cases kind <;> decide

theorem UnaryOp.isTitle_name (op : UnaryOp) : IsTitle op.name := by
  cases op <;> decide

theorem BinaryOp.isTitle_name (op : BinaryOp) : IsTitle op.name := by
  cases op <;> decide

theorem Token.spelled (t : Token) : t.datum.Spelled := by
  have kind : t.kind.datum.Spelled := .tag t.kind.isTitle_name
  exact .record (by decide) (List.cons_ne_nil _ _) (by simp [IsTitle]) (by simp [kind, Spelled.text])

theorem Ident.spelled (i : Ident) : i.datum.Spelled :=
  .record (by decide) (List.cons_ne_nil _ _) (by simp [IsTitle])
    (by simp [i.token.spelled, Spelled.text])

/-- The names in the dump of a statement are words if those in the dump of its value are. -/
theorem Stmt.spelled_of_value {s : Stmt} (value : s.value.datum.Spelled) : s.datum.Spelled := by
  cases s with
  | binding token name e =>
    have value : e.datum.Spelled := value
    rw [Stmt.datum]
    refine .wrapped (by decide) (.record (by decide) (List.cons_ne_nil _ _) (by simp [IsTitle]) ?_)
    simp [token.spelled, name.spelled, value]
  | ret token e =>
    have value : e.datum.Spelled := value
    rw [Stmt.datum]
    refine .wrapped (by decide) (.record (by decide) (List.cons_ne_nil _ _) (by simp [IsTitle]) ?_)
    simp [token.spelled, value]
  | expr token e =>
    have value : e.datum.Spelled := value
    rw [Stmt.datum]
    refine .wrapped (by decide) (.record (by decide) (List.cons_ne_nil _ _) (by simp [IsTitle]) ?_)
    simp [token.spelled, value]

theorem spelled_list {α : Type} {f : α → Datum} {xs : List α} (each : ∀ x ∈ xs, (f x).Spelled) :
    (Datum.list (xs.map f)).Spelled :=
  .list (List.forall_mem_map.mpr each)

theorem spelled_body {body : List Stmt} (each : ∀ s ∈ body, s.value.datum.Spelled) :
    (Datum.record "Program" [("statements", .list (body.map Stmt.datum))]).Spelled := by
  have statements := spelled_list fun s mem => Stmt.spelled_of_value (each s mem)
  exact .record (by decide) (List.cons_ne_nil _ _) (by simp [IsTitle]) (by simp [statements])

theorem Expr.spelled (e : Expr) : e.datum.Spelled := by
  induction e with
  | ident name => exact .wrapped (by decide) name.spelled
  | int token value =>
    exact .variant (by decide) (List.cons_ne_nil _ _) (by simp [IsTitle])
      (by simp [token.spelled, Spelled.int])
  | bool token value =>
    exact .variant (by decide) (List.cons_ne_nil _ _) (by simp [IsTitle])
      (by simp [token.spelled, Spelled.bool])
  | unary token op operand ih =>
    have name : (Datum.tag op.name).Spelled := .tag op.isTitle_name
    exact .variant (by decide) (List.cons_ne_nil _ _) (by simp [IsTitle])
      (by simp [token.spelled, name, ih])
  | binary token left op right ihLeft ihRight =>
    have name : (Datum.tag op.name).Spelled := .tag op.isTitle_name
    exact .variant (by decide) (List.cons_ne_nil _ _) (by simp [IsTitle])
      (by simp [token.spelled, ihLeft, name, ihRight])
  | call callee args ih =>
    have list := spelled_list ih
    rw [Expr.datum, Expr.dataAfter_eq]
    exact .variant (by decide) (List.cons_ne_nil _ _) (by simp [IsTitle])
      (by simp [callee.spelled, list])
  | fn token params body ih =>
    have names := spelled_list fun (i : Ident) (_ : i ∈ params) => i.spelled
    have statements := spelled_body ih
    rw [Expr.datum, Stmt.dataAfter_eq]
    exact .variant (by decide) (List.cons_ne_nil _ _) (by simp [IsTitle])
      (by simp [token.spelled, names, statements])

theorem Stmt.spelled (s : Stmt) : s.datum.Spelled := Stmt.spelled_of_value s.value.spelled

theorem Program.spelled (p : Program) : p.datum.Spelled := spelled_body fun s _ => s.value.spelled

/-! ## Trees -/

section

variable {layout : Datum.Layout} {text : Nat → Datum → String} (isText : layout.IsText text)
include isText

theorem Token.told (n : Nat) (t t' : Token) : Told text n t.datum t'.datum (t = t') := by
  obtain ⟨kind, literal⟩ := t
  obtain ⟨kind', literal'⟩ := t'
  have kinds := told_tag isText (n := n + 1) kind.isTitle_name kind'.isTitle_name
  have literals := told_text isText (n := n + 1) literal literal'
  refine (told_record isText "Token" "kind" kinds (.cons "literal" literals .nil)).imp ?_
  rintro ⟨names, rfl, -⟩
  rw [Kind.name_injective names]

theorem Ident.told (n : Nat) (i i' : Ident) : Told text n i.datum i'.datum (i = i') := by
  obtain ⟨token, name⟩ := i
  obtain ⟨token', name'⟩ := i'
  have tokens := token.told isText (n + 1) token'
  have names := told_text isText (n := n + 1) name name'
  refine (told_record isText "Ident" "token" tokens (.cons "name" names .nil)).imp ?_
  rintro ⟨rfl, rfl, -⟩
  rfl

/-- Statements are told from one another if their values are, whatever level these stand on. -/
theorem Stmt.told_of_value {s : Stmt}
    (value : ∀ n e, Told text n s.value.datum e.datum (s.value = e)) (n : Nat) (s' : Stmt) :
    Told text n s.datum s'.datum (s = s') := by
  cases s with
  | binding token name e =>
    cases s' with
    | binding token' name' e' =>
      have tokens := token.told isText (n + 2) token'
      have names := name.told isText (n + 2) name'
      have values : Told text (n + 2) e.datum e'.datum (e = e') := value (n + 2) e'
      have record := told_record isText "LetStmt" "token" tokens
        (.cons "name" names (.cons "value" values .nil))
      refine (told_wrapped isText "Let" record).imp ?_
      rintro ⟨rfl, rfl, rfl, -⟩
      rfl
    | _ => exact told_of_title_ne isText (Stmt.spelled _) (Stmt.spelled _) rfl rfl (by decide)
  | ret token e =>
    cases s' with
    | ret token' e' =>
      have tokens := token.told isText (n + 2) token'
      have values : Told text (n + 2) e.datum e'.datum (e = e') := value (n + 2) e'
      have record := told_record isText "ReturnStmt" "token" tokens (.cons "value" values .nil)
      refine (told_wrapped isText "Return" record).imp ?_
      rintro ⟨rfl, rfl, -⟩
      rfl
    | _ => exact told_of_title_ne isText (Stmt.spelled _) (Stmt.spelled _) rfl rfl (by decide)
  | expr token e =>
    cases s' with
    | expr token' e' =>
      have tokens := token.told isText (n + 2) token'
      have values : Told text (n + 2) e.datum e'.datum (e = e') := value (n + 2) e'
      have record := told_record isText "ExprStmt" "token" tokens (.cons "expr" values .nil)
      refine (told_wrapped isText "Expr" record).imp ?_
      rintro ⟨rfl, rfl, -⟩
      rfl
    | _ => exact told_of_title_ne isText (Stmt.spelled _) (Stmt.spelled _) rfl rfl (by decide)

omit isText in
theorem Ident.exists_title (i : Ident) : ∃ title, i.datum.title? = some title ∧ title ≠ "" :=
  ⟨"Ident", rfl, by decide⟩

omit isText in
theorem Stmt.exists_title (s : Stmt) : ∃ title, s.datum.title? = some title ∧ title ≠ "" := by
  cases s <;> exact ⟨_, rfl, by decide⟩

omit isText in
theorem Expr.exists_title (e : Expr) : ∃ title, e.datum.title? = some title ∧ title ≠ "" := by
  cases e <;> exact ⟨_, rfl, by decide⟩

theorem told_body {body : List Stmt}
    (each : ∀ s ∈ body, ∀ n e, Told text n s.value.datum e.datum (s.value = e)) (n : Nat)
    (body' : List Stmt) :
    Told text n (.record "Program" [("statements", .list (body.map Stmt.datum))])
      (.record "Program" [("statements", .list (body'.map Stmt.datum))]) (body = body') := by
  have lists : Told text (n + 1) (.list (body.map Stmt.datum)) (.list (body'.map Stmt.datum))
      (body = body') :=
    told_list isText Stmt.spelled Stmt.exists_title fun s mem s' =>
      Stmt.told_of_value isText (each s mem) _ s'
  exact (told_record isText "Program" "statements" lists .nil).imp And.left

theorem Expr.told (e : Expr) (n : Nat) (e' : Expr) : Told text n e.datum e'.datum (e = e') := by
  induction e generalizing n e' with
  | ident name =>
    cases e' with
    | ident name' =>
      refine (told_wrapped isText "Ident" (name.told isText (n + 1) name')).imp ?_
      rintro rfl
      rfl
    | _ => exact told_of_title_ne isText (Expr.spelled _) (Expr.spelled _) rfl rfl (by decide)
  | int token value =>
    cases e' with
    | int token' value' =>
      have tokens := token.told isText (n + 1) token'
      have values := told_int isText (n := n + 1) value value'
      refine (told_variant isText "Int" "token" tokens (.cons "value" values .nil)).imp ?_
      rintro ⟨rfl, rfl, -⟩
      rfl
    | _ => exact told_of_title_ne isText (Expr.spelled _) (Expr.spelled _) rfl rfl (by decide)
  | bool token value =>
    cases e' with
    | bool token' value' =>
      have tokens := token.told isText (n + 1) token'
      have values := told_bool isText (n := n + 1) value value'
      refine (told_variant isText "Bool" "token" tokens (.cons "value" values .nil)).imp ?_
      rintro ⟨rfl, rfl, -⟩
      rfl
    | _ => exact told_of_title_ne isText (Expr.spelled _) (Expr.spelled _) rfl rfl (by decide)
  | unary token op operand ih =>
    cases e' with
    | unary token' op' operand' =>
      have tokens := token.told isText (n + 1) token'
      have ops := told_tag isText (n := n + 1) op.isTitle_name op'.isTitle_name
      refine (told_variant isText "Prefix" "token" tokens
        (.cons "op" ops (.cons "right" (ih (n + 1) operand') .nil))).imp ?_
      rintro ⟨rfl, names, rfl, -⟩
      rw [UnaryOp.name_injective names]
    | _ => exact told_of_title_ne isText (Expr.spelled _) (Expr.spelled _) rfl rfl (by decide)
  | binary token left op right ihLeft ihRight =>
    cases e' with
    | binary token' left' op' right' =>
      have tokens := token.told isText (n + 1) token'
      have ops := told_tag isText (n := n + 1) op.isTitle_name op'.isTitle_name
      refine (told_variant isText "Infix" "token" tokens (.cons "lhs" (ihLeft (n + 1) left')
        (.cons "op" ops (.cons "rhs" (ihRight (n + 1) right') .nil)))).imp ?_
      rintro ⟨rfl, rfl, names, rfl, -⟩
      rw [BinaryOp.name_injective names]
    | _ => exact told_of_title_ne isText (Expr.spelled _) (Expr.spelled _) rfl rfl (by decide)
  | call callee args ih =>
    cases e' with
    | call callee' args' =>
      have callees := callee.told isText (n + 1) callee'
      have lists : Told text (n + 1) (.list (args.map Expr.datum)) (.list (args'.map Expr.datum))
          (args = args') :=
        told_list isText Expr.spelled Expr.exists_title fun a mem a' => ih a mem _ a'
      rw [Expr.datum, Expr.datum, Expr.dataAfter_eq, Expr.dataAfter_eq]
      refine (told_variant isText "Call" "callee" callees (.cons "args" lists .nil)).imp ?_
      rintro ⟨rfl, rfl, -⟩
      rfl
    | _ => exact told_of_title_ne isText (Expr.spelled _) (Expr.spelled _) rfl rfl (by decide)
  | fn token params body ih =>
    cases e' with
    | fn token' params' body' =>
      have tokens := token.told isText (n + 1) token'
      have names : Told text (n + 1) (.list (params.map Ident.datum))
          (.list (params'.map Ident.datum)) (params = params') :=
        told_list isText Ident.spelled Ident.exists_title fun i _ i' => i.told isText _ i'
      have bodies := told_body isText (fun s mem n e => ih s mem n e) (n + 1) body'
      rw [Expr.datum, Expr.datum, Stmt.dataAfter_eq, Stmt.dataAfter_eq]
      refine (told_variant isText "Fn" "token" tokens
        (.cons "params" names (.cons "body" bodies .nil))).imp ?_
      rintro ⟨rfl, rfl, rfl, -⟩
      rfl
    | _ => exact told_of_title_ne isText (Expr.spelled _) (Expr.spelled _) rfl rfl (by decide)

/-- With any layout, programs with the same text are the same. -/
theorem Program.eq_of_text {p q : Program} {n : Nat} (same : text n p.datum = text n q.datum) :
    p = q := by
  have told := told_body isText (fun s (_ : s ∈ p.statements) n e => s.value.told isText n e) n
    q.statements
  have mark : AtMark ['\n'] := ⟨_, _, rfl, by decide, by decide⟩
  exact congrArg Program.mk (told _ _ mark mark (congrArg (·.toList ++ ['\n']) same)).1

end

/-- No two programs have the same dump in words, whatever their tokens, names, literals and numbers are:
neither the same text on one line nor the same indented text, nor is the same printed for them. In both
texts, the string literals are those of the texts of the program, in which no line break is left. So
indentation, which goes by the line breaks, changes nothing in them, on whatever level a part of the
program stands. -/
theorem inWords_eq_iff (p q : Program) :
    (p.datum.oneLine = q.datum.oneLine ↔ p = q) ∧
      (p.datum.indented = q.datum.indented ↔ p = q) ∧
      (Command.Format.pretty.print p = Command.Format.pretty.print q ↔ p = q) ∧
      (∀ s, '\n' ∉ (quoted s).toList) ∧
      literals p.datum.oneLine = p.datum.texts.map quoted ∧
      (∀ level, literals (p.datum.indentedAt level) = p.datum.texts.map quoted) ∧
      ∀ level, p.datum.indentedAt (level + 1) = indentLines (p.datum.indentedAt level) := by
  have indented (same : p.datum.indented = q.datum.indented) : p = q :=
    Program.eq_of_text isText_indentedAt same
  refine ⟨⟨fun same => ?_, fun same => same ▸ rfl⟩, ⟨indented, fun same => same ▸ rfl⟩,
    ⟨fun same => ?_, fun same => same ▸ rfl⟩, noLineBreak_quoted,
    literals_text isText_oneLine p.spelled 0, literals_text isText_indentedAt p.spelled,
    indentedAt_succ p.spelled⟩
  · exact Program.eq_of_text (n := 0) isText_oneLine same
  · exact indented (by simpa [Command.Format.print] using same)

end MonkeySyntax
