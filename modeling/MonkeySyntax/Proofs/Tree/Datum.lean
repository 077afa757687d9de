import MonkeySyntax.Command.Report
import MonkeySyntax.Proofs.Json
import MonkeySyntax.Proofs.Tree

/-!
# Dumps tell everything of a tree

`json_eq_iff` — programs with the same JSON text are the same, tokens included, whether the text is the
compact one or the indented one that is printed; and the two differ in their layout only.
-/

namespace MonkeySyntax

/-- Lists are the same if `f` makes the same of them, and tells each item of the one from everything
else. -/
theorem map_inj_of_mem {α β : Type} {f : α → β} {xs ys : List α}
    (each : ∀ x ∈ xs, ∀ y, f x = f y → x = y) (same : xs.map f = ys.map f) : xs = ys := by
  induction xs generalizing ys with
  | nil => exact (List.map_eq_nil_iff.mp same.symm).symm
  | cons x xs ih =>
    cases ys with
    | nil => cases same
    | cons y ys =>
      rw [List.forall_mem_cons] at each
      obtain ⟨first, later⟩ := List.cons.inj same
      rw [each.1 y first, ih each.2 later]

/-! ## Names of kinds and operators -/

theorem Kind.name_injective {k k' : Kind} (same : k.name = k'.name) : k = k' := by
  have both := congrArg Kind.ofName? same
  rw [Kind.ofName?_name, Kind.ofName?_name] at both
  exact Option.some.inj both

theorem UnaryOp.name_injective {op op' : UnaryOp} (same : op.name = op'.name) : op = op' := by
  cases op <;> cases op' <;> simp_all [UnaryOp.name]

theorem BinaryOp.name_injective {op op' : BinaryOp} (same : op.name = op'.name) : op = op' := by
  cases op <;> cases op' <;> simp_all [BinaryOp.name]

/-! ## Data as JSON -/

namespace Datum

@[simp] theorem json_text (s : String) : (text s).json = .text s := by rw [json]

@[simp] theorem json_int (n : Int) : (int n).json = .int n := by rw [json]

@[simp] theorem json_bool (b : Bool) : (bool b).json = .bool b := by rw [json]

@[simp] theorem json_tag (title : String) : (tag title).json = .text title := by rw [json]

@[simp] theorem json_wrapped (title : String) (content : Datum) :
    (wrapped title content).json = .object [(title, content.json)] := by
  rw [json]

@[simp] theorem json_variant (title : String) (fields : List (String × Datum)) :
    (variant title fields).json =
      .object [(title, .object (fields.map fun f => (f.1, f.2.json)))] := by
  rw [json, jsonFields_eq]
  rfl

@[simp] theorem json_record (title : String) (fields : List (String × Datum)) :
    (record title fields).json = .object (fields.map fun f => (f.1, f.2.json)) := by
  rw [json, jsonFields_eq]
  rfl

@[simp] theorem json_list (items : List Datum) : (list items).json = .array (items.map json) := by
  rw [json, jsonItems_eq]
  rfl

end Datum

/-! ## Trees -/

theorem Token.json_injective {t t' : Token} (same : t.datum.json = t'.datum.json) : t = t' := by
  obtain ⟨kind, literal⟩ := t
  obtain ⟨kind', literal'⟩ := t'
  obtain ⟨names, rfl⟩ : kind.name = kind'.name ∧ literal = literal' := by
    simpa [Token.datum, Kind.datum] using same
  rw [Kind.name_injective names]

theorem Ident.json_injective {i i' : Ident} (same : i.datum.json = i'.datum.json) : i = i' := by
  obtain ⟨token, name⟩ := i
  obtain ⟨token', name'⟩ := i'
  obtain ⟨tokens, rfl⟩ : token.datum.json = token'.datum.json ∧ name = name' := by
    simpa [Ident.datum] using same
  rw [Token.json_injective tokens]

/-- Statements are told from one another if their values are. -/
theorem Stmt.json_injective_of_value {s s' : Stmt}
    (value : ∀ e, s.value.datum.json = e.datum.json → s.value = e)
    (same : s.datum.json = s'.datum.json) : s = s' := by
  cases s with
  | binding token name e =>
    cases s' with
    | binding token' name' e' =>
      obtain ⟨tokens, names, values⟩ : token.datum.json = token'.datum.json ∧
          name.datum.json = name'.datum.json ∧ e.datum.json = e'.datum.json := by
        simpa [Stmt.datum] using same
      obtain rfl : e = e' := value e' values
      rw [Token.json_injective tokens, Ident.json_injective names]
    | _ => simp [Stmt.datum] at same
  | ret token e =>
    cases s' with
    | ret token' e' =>
      obtain ⟨tokens, values⟩ : token.datum.json = token'.datum.json ∧
          e.datum.json = e'.datum.json := by
        simpa [Stmt.datum] using same
      obtain rfl : e = e' := value e' values
      rw [Token.json_injective tokens]
    | _ => simp [Stmt.datum] at same
  | expr token e =>
    cases s' with
    | expr token' e' =>
      obtain ⟨tokens, values⟩ : token.datum.json = token'.datum.json ∧
          e.datum.json = e'.datum.json := by
        simpa [Stmt.datum] using same
      obtain rfl : e = e' := value e' values
      rw [Token.json_injective tokens]
    | _ => simp [Stmt.datum] at same

theorem Expr.json_injective {e e' : Expr} (same : e.datum.json = e'.datum.json) : e = e' := by
  induction e generalizing e' with
  | ident name =>
    cases e' with
    | ident name' =>
      have names : name.datum.json = name'.datum.json := by simpa [Expr.datum] using same
      rw [Ident.json_injective names]
    | _ => simp [Expr.datum] at same
  | int token value =>
    cases e' with
    | int token' value' =>
      obtain ⟨tokens, rfl⟩ : token.datum.json = token'.datum.json ∧ value = value' := by
        simpa [Expr.datum] using same
      rw [Token.json_injective tokens]
    | _ => simp [Expr.datum] at same
  | bool token value =>
    cases e' with
    | bool token' value' =>
      obtain ⟨tokens, rfl⟩ : token.datum.json = token'.datum.json ∧ value = value' := by
        simpa [Expr.datum] using same
      rw [Token.json_injective tokens]
    | _ => simp [Expr.datum] at same
  | unary token op operand ih =>
    cases e' with
    | unary token' op' operand' =>
      obtain ⟨tokens, names, operands⟩ : token.datum.json = token'.datum.json ∧
          op.name = op'.name ∧ operand.datum.json = operand'.datum.json := by
        simpa [Expr.datum] using same
      rw [Token.json_injective tokens, UnaryOp.name_injective names, ih operands]
    | _ => simp [Expr.datum] at same
  | binary token left op right ihLeft ihRight =>
    cases e' with
    | binary token' left' op' right' =>
      obtain ⟨tokens, lefts, names, rights⟩ : token.datum.json = token'.datum.json ∧
          left.datum.json = left'.datum.json ∧ op.name = op'.name ∧
          right.datum.json = right'.datum.json := by
        simpa [Expr.datum] using same
      rw [Token.json_injective tokens, ihLeft lefts, BinaryOp.name_injective names, ihRight rights]
    | _ => simp [Expr.datum] at same
  | call callee args ih =>
    cases e' with
    | call callee' args' =>
      obtain ⟨callees, each⟩ : callee.datum.json = callee'.datum.json ∧
          args.map (Datum.json ∘ Expr.datum) = args'.map (Datum.json ∘ Expr.datum) := by
        simpa [Expr.datum, Expr.dataAfter_eq] using same
      rw [Ident.json_injective callees, map_inj_of_mem (fun a mem a' => ih a mem) each]
    | _ => simp [Expr.datum] at same
  | fn token params body ih =>
    cases e' with
    | fn token' params' body' =>
      obtain ⟨tokens, names, statements⟩ : token.datum.json = token'.datum.json ∧
          params.map (Datum.json ∘ Ident.datum) = params'.map (Datum.json ∘ Ident.datum) ∧
          body.map (Datum.json ∘ Stmt.datum) = body'.map (Datum.json ∘ Stmt.datum) := by
        simpa [Expr.datum, Stmt.dataAfter_eq] using same
      rw [Token.json_injective tokens, map_inj_of_mem (fun _ _ _ => Ident.json_injective) names,
        map_inj_of_mem (fun s mem s' => Stmt.json_injective_of_value fun e => ih s mem) statements]
    | _ => simp [Expr.datum] at same

theorem Program.json_injective {p q : Program} (same : p.datum.json = q.datum.json) : p = q := by
  obtain ⟨statements⟩ := p
  obtain ⟨statements'⟩ := q
  have each : statements.map (Datum.json ∘ Stmt.datum) =
      statements'.map (Datum.json ∘ Stmt.datum) := by
    simpa [Program.datum] using same
  rw [map_inj_of_mem (fun s _ s' => Stmt.json_injective_of_value fun e => Expr.json_injective) each]

/-- No two programs have the same JSON, whatever their tokens, names, literals and numbers are: neither
the same compact text nor the same indented text, nor is the same printed for them. Without the spaces
and line breaks outside string literals, the indented text is the compact one. -/
theorem json_eq_iff (p q : Program) :
    (p.datum.json.compact = q.datum.json.compact ↔ p = q) ∧
      (p.datum.json.pretty = q.datum.json.pretty ↔ p = q) ∧
      (Command.Format.json.print p = Command.Format.json.print q ↔ p = q) ∧
      Json.withoutLayout p.datum.json.pretty = p.datum.json.compact := by
  have pretty (same : p.datum.json.pretty = q.datum.json.pretty) : p = q :=
    Program.json_injective (Json.pretty_injective same)
  refine ⟨⟨fun same => ?_, fun same => same ▸ rfl⟩, ⟨pretty, fun same => same ▸ rfl⟩,
    ⟨fun same => ?_, fun same => same ▸ rfl⟩, Json.withoutLayout_pretty _⟩
  · exact Program.json_injective (Json.compact_injective same)
  · exact pretty (by simpa [Command.Format.print] using same)

end MonkeySyntax
