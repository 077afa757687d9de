import MonkeySyntax.Parser.Height
import MonkeySyntax.Proofs.Literal
import MonkeySyntax.Tree

/-!
# Trees

Every statement holds exactly one expression, its `Stmt.value`, so trees are taken apart by one
induction on expressions (`Expr.induction`), in which the body of a function counts as the list of
its values.

* `Expr.height`, `Stmt.height` — how high a tree is, leaves not counted.
* `Program.statementCount` — how many statements there are in a program, at all depths.
* `Expr.Everywhere` — a condition on every expression and a condition on every statement in a tree.
* `Expr.WellFormed`, `Program.WellFormed` — the stored tokens agree with the nodes.
-/

namespace MonkeySyntax

/-- The expression in a statement. -/
def Stmt.value : Stmt → Expr
  | .binding _ _ value => value
  | .ret _ value => value
  | .expr _ value => value

/-- Induction on expressions, through argument lists and through the values in function bodies. -/
@[elab_as_elim, induction_eliminator]
theorem Expr.induction {motive : Expr → Prop} (ident : ∀ name, motive (.ident name))
    (int : ∀ token value, motive (.int token value))
    (bool : ∀ token value, motive (.bool token value))
    (unary : ∀ token op operand, motive operand → motive (.unary token op operand))
    (binary : ∀ token left op right, motive left → motive right →
      motive (.binary token left op right))
    (call : ∀ callee args, (∀ a ∈ args, motive a) → motive (.call callee args))
    (fn : ∀ token params body, (∀ s ∈ body, motive s.value) → motive (.fn token params body))
    (e : Expr) : motive e := by
  -- the recursor of the nested type asks for statements, and for lists of either, as well
  apply @Expr.rec motive (fun s => motive s.value) (fun es => ∀ e ∈ es, motive e)
    (fun ss => ∀ s ∈ ss, motive s.value) ident int bool unary binary call fn
  case binding => exact fun _ _ _ h => h
  case ret => exact fun _ _ h => h
  case expr => exact fun _ _ h => h
  case nil => exact fun _ h => absurd h List.not_mem_nil
  case cons => exact fun _ _ first later => List.forall_mem_cons.mpr ⟨first, later⟩
  case nil => exact fun _ h => absurd h List.not_mem_nil
  case cons => exact fun _ _ first later => List.forall_mem_cons.mpr ⟨first, later⟩

/-! ## Height -/

mutual

/-- The number of nodes on the longest way down, the leaf not counted. -/
def Expr.height : Expr → Nat
  | .ident _ | .int _ _ | .bool _ _ => 0
  | .unary _ _ operand => operand.height + 1
  | .binary _ left _ right => max left.height right.height + 1
  | .call _ args => Expr.highest args + 1
  | .fn _ _ body => Stmt.highest body + 1

/-- The height of the highest of several expressions. -/
def Expr.highest : List Expr → Nat
  | [] => 0
  | e :: es => max e.height (Expr.highest es)

/-- The height of the expression in a statement. -/
def Stmt.height : Stmt → Nat
  | .binding _ _ value => value.height
  | .ret _ value => value.height
  | .expr _ value => value.height

/-- The height of the highest of several statements. -/
def Stmt.highest : List Stmt → Nat
  | [] => 0
  | s :: ss => max s.height (Stmt.highest ss)

end

@[simp]
theorem Stmt.height_value (s : Stmt) : s.value.height = s.height := by
  cases s <;> rfl

theorem Stmt.highest_le_iff {ss : List Stmt} {n : Nat} :
    Stmt.highest ss ≤ n ↔ ∀ s ∈ ss, s.height ≤ n := by
  induction ss with
  | nil => simp [Stmt.highest]
  | cons s ss ih => rw [Stmt.highest, Nat.max_le, ih, List.forall_mem_cons]

/-! ## Number of statements -/

mutual

/-- The number of statements in an expression, those in function bodies inside functions included. -/
def Expr.statementCount : Expr → Nat
  | .ident _ | .int _ _ | .bool _ _ => 0
  | .unary _ _ operand => operand.statementCount
  | .binary _ left _ right => left.statementCount + right.statementCount
  | .call _ args => Expr.statementCounts args
  | .fn _ _ body => Stmt.statementCounts body

/-- The number of statements in several expressions. -/
def Expr.statementCounts : List Expr → Nat
  | [] => 0
  | e :: es => e.statementCount + Expr.statementCounts es

/-- The number of statements in a statement, which is one of them. -/
def Stmt.statementCount : Stmt → Nat
  | .binding _ _ value => value.statementCount + 1
  | .ret _ value => value.statementCount + 1
  | .expr _ value => value.statementCount + 1

/-- The number of statements in several statements. -/
def Stmt.statementCounts : List Stmt → Nat
  | [] => 0
  | s :: ss => s.statementCount + Stmt.statementCounts ss

end

/-- The number of statements in a program, those in function bodies included. -/
def Program.statementCount (p : Program) : Nat := Stmt.statementCounts p.statements

/-! ## Conditions on all nodes -/

mutual

/-- The condition `pe` holds of the expression and of every expression in it, and `ps` of every
statement in it. -/
def Expr.Everywhere (pe : Expr → Prop) (ps : Stmt → Prop) : Expr → Prop
  | .ident name => pe (.ident name)
  | .int token value => pe (.int token value)
  | .bool token value => pe (.bool token value)
  | .unary token op operand => pe (.unary token op operand) ∧ operand.Everywhere pe ps
  | .binary token left op right =>
    pe (.binary token left op right) ∧ left.Everywhere pe ps ∧ right.Everywhere pe ps
  | .call callee args => pe (.call callee args) ∧ Expr.AllEverywhere pe ps args
  | .fn token params body => pe (.fn token params body) ∧ Stmt.AllEverywhere pe ps body

/-- `Expr.Everywhere` of several expressions. -/
def Expr.AllEverywhere (pe : Expr → Prop) (ps : Stmt → Prop) : List Expr → Prop
  | [] => True
  | e :: es => e.Everywhere pe ps ∧ Expr.AllEverywhere pe ps es

/-- The condition `ps` holds of the statement and of every statement in it, and `pe` of every
expression in it. -/
def Stmt.Everywhere (pe : Expr → Prop) (ps : Stmt → Prop) : Stmt → Prop
  | .binding token name value => ps (.binding token name value) ∧ value.Everywhere pe ps
  | .ret token value => ps (.ret token value) ∧ value.Everywhere pe ps
  | .expr token value => ps (.expr token value) ∧ value.Everywhere pe ps

/-- `Stmt.Everywhere` of several statements. -/
def Stmt.AllEverywhere (pe : Expr → Prop) (ps : Stmt → Prop) : List Stmt → Prop
  | [] => True
  | s :: ss => s.Everywhere pe ps ∧ Stmt.AllEverywhere pe ps ss

end

section

variable {pe qe : Expr → Prop} {ps qs : Stmt → Prop}

@[simp]
theorem Expr.allEverywhere_iff {es : List Expr} :
    Expr.AllEverywhere pe ps es ↔ ∀ e ∈ es, e.Everywhere pe ps := by
  induction es with
  | nil => simp [Expr.AllEverywhere]
  | cons e es ih => rw [Expr.AllEverywhere, ih, List.forall_mem_cons]

@[simp]
theorem Stmt.allEverywhere_iff {ss : List Stmt} :
    Stmt.AllEverywhere pe ps ss ↔ ∀ s ∈ ss, s.Everywhere pe ps := by
  induction ss with
  | nil => simp [Stmt.AllEverywhere]
  | cons s ss ih => rw [Stmt.AllEverywhere, ih, List.forall_mem_cons]

theorem Stmt.everywhere_iff {s : Stmt} :
    s.Everywhere pe ps ↔ ps s ∧ s.value.Everywhere pe ps := by
  cases s <;> exact Iff.rfl

theorem Expr.Everywhere.here {e : Expr} (h : e.Everywhere pe ps) : pe e := by
  cases e <;> first | exact h | exact h.1

theorem Expr.Everywhere.mono {e : Expr} (h : e.Everywhere pe ps) (he : ∀ e, pe e → qe e)
    (hs : ∀ s, ps s → qs s) : e.Everywhere qe qs := by
  induction e with
  | ident name => exact he _ h
  | int token value => exact he _ h
  | bool token value => exact he _ h
  | unary token op operand ih => exact ⟨he _ h.1, ih h.2⟩
  | binary token left op right ihLeft ihRight =>
    exact ⟨he _ h.1, ihLeft h.2.1, ihRight h.2.2⟩
  | call callee args ih =>
    have inside := Expr.allEverywhere_iff.mp h.2
    refine ⟨he _ h.1, Expr.allEverywhere_iff.mpr ?_⟩
    intro a ha
    exact ih a ha (inside a ha)
  | fn token params body ih =>
    have inside := Stmt.allEverywhere_iff.mp h.2
    refine ⟨he _ h.1, Stmt.allEverywhere_iff.mpr ?_⟩
    intro s hm
    obtain ⟨here, below⟩ := Stmt.everywhere_iff.mp (inside s hm)
    exact Stmt.everywhere_iff.mpr ⟨hs s here, ih s hm below⟩

theorem Stmt.Everywhere.mono {s : Stmt} (h : s.Everywhere pe ps) (he : ∀ e, pe e → qe e)
    (hs : ∀ s, ps s → qs s) : s.Everywhere qe qs := by
  obtain ⟨here, below⟩ := Stmt.everywhere_iff.mp h
  exact Stmt.everywhere_iff.mpr ⟨hs s here, below.mono he hs⟩

end

/-! ## Conditions on heights -/

theorem Expr.highest_le_iff {es : List Expr} {n : Nat} :
    Expr.highest es ≤ n ↔ ∀ e ∈ es, e.height ≤ n := by
  induction es with
  | nil => simp [Expr.highest]
  | cons e es ih => rw [Expr.highest, Nat.max_le, ih, List.forall_mem_cons]

section

variable {pe : Expr → Prop} {ps : Stmt → Prop} {n : Nat}

/-- Expressions inside an expression are no higher than it. -/
theorem Expr.Everywhere.within {e : Expr} (h : e.Everywhere pe ps) (bound : e.height ≤ n) :
    e.Everywhere (fun e => pe e ∧ e.height ≤ n) ps := by
  induction e with
  | ident name => exact ⟨h, bound⟩
  | int token value => exact ⟨h, bound⟩
  | bool token value => exact ⟨h, bound⟩
  | unary token op operand ih =>
    have lower : operand.height ≤ n := Nat.le_of_succ_le bound
    exact ⟨⟨h.1, bound⟩, ih h.2 lower⟩
  | binary token left op right ihLeft ihRight =>
    obtain ⟨lower, lower'⟩ := Nat.max_le.mp (Nat.le_of_succ_le bound)
    exact ⟨⟨h.1, bound⟩, ihLeft h.2.1 lower, ihRight h.2.2 lower'⟩
  | call callee args ih =>
    have inside := Expr.allEverywhere_iff.mp h.2
    have lower := Expr.highest_le_iff.mp (Nat.le_of_succ_le bound)
    refine ⟨⟨h.1, bound⟩, Expr.allEverywhere_iff.mpr ?_⟩
    intro a ha
    exact ih a ha (inside a ha) (lower a ha)
  | fn token params body ih =>
    have inside := Stmt.allEverywhere_iff.mp h.2
    have lower := Stmt.highest_le_iff.mp (Nat.le_of_succ_le bound)
    refine ⟨⟨h.1, bound⟩, Stmt.allEverywhere_iff.mpr ?_⟩
    intro s hs
    obtain ⟨here, below⟩ := Stmt.everywhere_iff.mp (inside s hs)
    exact Stmt.everywhere_iff.mpr ⟨here, ih s hs below (s.height_value ▸ lower s hs)⟩

theorem Stmt.Everywhere.within {s : Stmt} (h : s.Everywhere pe ps) (bound : s.height ≤ n) :
    s.Everywhere (fun e => pe e ∧ e.height ≤ n) ps := by
  obtain ⟨here, below⟩ := Stmt.everywhere_iff.mp h
  exact Stmt.everywhere_iff.mpr ⟨here, below.within (s.height_value ▸ bound)⟩

end

/-! ## Well-formed trees -/

/-- The name is a name, and the token is the one that spells it. -/
structure Ident.WellFormed (ident : Ident) : Prop where
  kind_eq : ident.token.kind = .identifier
  literal_eq : ident.token.literal = ident.name
  isName : IsName ident.name

theorem Ident.WellFormed.ofToken_token {ident : Ident} (h : ident.WellFormed) :
    Ident.ofToken ident.token = ident := by
  cases ident
  rw [Ident.ofToken, h.literal_eq]

/-- The tokens in the node itself are those that its other fields are written with. Of an integer
only the form is looked at, not the value. -/
def Expr.Spelled : Expr → Prop
  | .ident name => name.WellFormed
  | .int token _ => token.kind = .integer ∧ IsNumeral token.literal
  | .bool token value => token = Kind.token (if value then .trueWord else .falseWord)
  | .unary token op _ => token = op.kind.token
  | .binary token _ op _ => token = op.kind.token
  | .call callee _ => callee.WellFormed
  | .fn token params _ => token = Kind.fnWord.token ∧ ∀ p ∈ params, p.WellFormed

/-- The tokens in the statement itself are those that its other fields are written with. The token of
an expression statement may be any. -/
def Stmt.Spelled : Stmt → Prop
  | .binding token name _ => token = Kind.letWord.token ∧ name.WellFormed
  | .ret token _ => token = Kind.returnWord.token
  | .expr _ _ => True

/-- The node itself is spelled, and an integer has the value of its numeral, which is in range. -/
def Expr.Agrees (e : Expr) : Prop :=
  e.Spelled ∧
    match e with
    | .int token value => value = decimal token.literal ∧ decimal token.literal ≤ maxInteger
    | _ => True

/-- The stored tokens agree with the nodes, in the whole expression. -/
def Expr.WellFormed (e : Expr) : Prop := e.Everywhere Expr.Agrees Stmt.Spelled

/-- The stored tokens agree with the nodes, in the whole statement. -/
def Stmt.WellFormed (s : Stmt) : Prop := s.Everywhere Expr.Agrees Stmt.Spelled

/-- The stored tokens agree with the nodes, in the whole program. -/
def Program.WellFormed (p : Program) : Prop := ∀ s ∈ p.statements, s.WellFormed

theorem Stmt.wellFormed_iff {s : Stmt} : s.WellFormed ↔ s.Spelled ∧ s.value.WellFormed :=
  Stmt.everywhere_iff

theorem Stmt.WellFormed.printable {s : Stmt} (h : s.WellFormed) :
    s.Everywhere Expr.Spelled Stmt.Spelled :=
  Stmt.Everywhere.mono h (fun _ agrees => agrees.1) fun _ spelled => spelled

theorem Token.Lexical.identWellFormed {t : Token} (h : t.Lexical) (hk : t.kind = .identifier) :
    (Ident.ofToken t).WellFormed :=
  ⟨hk, rfl, h.isName hk⟩

end MonkeySyntax
