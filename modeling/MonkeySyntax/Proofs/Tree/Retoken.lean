import MonkeySyntax.Proofs.Tree
import MonkeySyntax.Tree.Canonical

/-!
# The tokens of expression statements

The token of an expression statement is the one field of a tree that its canonical text says nothing
about. `Program.retoken` replaces all of them, and two programs are `Program.Alike` if nothing else
tells them apart.
-/

namespace MonkeySyntax

mutual

/-- The expression with the token of every expression statement in it replaced by what `f` makes of
the statement's value. -/
def Expr.retoken (f : Expr → Token) : Expr → Expr
  | .ident name => .ident name
  | .int token value => .int token value
  | .bool token value => .bool token value
  | .unary token op operand => .unary token op (operand.retoken f)
  | .binary token left op right => .binary token (left.retoken f) op (right.retoken f)
  | .call callee args => .call callee (Expr.retokenAll f args)
  | .fn token params body => .fn token params (Stmt.retokenAll f body)

/-- `Expr.retoken` of several expressions. -/
def Expr.retokenAll (f : Expr → Token) : List Expr → List Expr
  | [] => []
  | e :: es => e.retoken f :: Expr.retokenAll f es

/-- The statement with the token of every expression statement in it, itself included, replaced by
what `f` makes of the statement's value. -/
def Stmt.retoken (f : Expr → Token) : Stmt → Stmt
  | .binding token name value => .binding token name (value.retoken f)
  | .ret token value => .ret token (value.retoken f)
  | .expr _ value => .expr (f value) (value.retoken f)

/-- `Stmt.retoken` of several statements. -/
def Stmt.retokenAll (f : Expr → Token) : List Stmt → List Stmt
  | [] => []
  | s :: ss => s.retoken f :: Stmt.retokenAll f ss

end

/-- The program with the token of every expression statement replaced. -/
def Program.retoken (f : Expr → Token) (p : Program) : Program :=
  ⟨Stmt.retokenAll f p.statements⟩

/-- The programs are equal in every field but the tokens of expression statements. -/
def Program.Alike (p q : Program) : Prop :=
  p.retoken (fun _ => Token.eof) = q.retoken fun _ => Token.eof

section

variable (f g : Expr → Token)

@[simp]
theorem Expr.retokenAll_eq_map (es : List Expr) :
    Expr.retokenAll f es = es.map (Expr.retoken f) := by
  induction es with
  | nil => rfl
  | cons e es ih => rw [Expr.retokenAll, ih, List.map_cons]

@[simp]
theorem Stmt.retokenAll_eq_map (ss : List Stmt) :
    Stmt.retokenAll f ss = ss.map (Stmt.retoken f) := by
  induction ss with
  | nil => rfl
  | cons s ss ih => rw [Stmt.retokenAll, ih, List.map_cons]

@[simp]
theorem Stmt.value_retoken (s : Stmt) : (s.retoken f).value = s.value.retoken f := by
  cases s <;> rfl

/-! ## What does not look at these tokens -/

theorem Stmt.canonicals_retoken_of_values {ss : List Stmt}
    (h : ∀ s ∈ ss, (s.value.retoken f).canonical = s.value.canonical) :
    (ss.map (Stmt.retoken f)).map Stmt.canonical = ss.map Stmt.canonical := by
  rw [List.map_map]
  refine List.map_congr_left fun s hs => ?_
  have same := h s hs
  cases s <;> simp only [Stmt.value] at same <;> simp [Stmt.retoken, Stmt.canonical, same]

@[simp]
theorem Expr.canonical_retoken (e : Expr) : (e.retoken f).canonical = e.canonical := by
  induction e with
  | ident name => rfl
  | int token value => rfl
  | bool token value => rfl
  | unary token op operand ih => simp [Expr.retoken, Expr.canonical, ih]
  | binary token left op right ihLeft ihRight =>
    simp [Expr.retoken, Expr.canonical, ihLeft, ihRight]
  | call callee args ih =>
    have same : (args.map (Expr.retoken f)).map Expr.canonical = args.map Expr.canonical := by
      rw [List.map_map]
      exact List.map_congr_left ih
    rw [Expr.retoken, Expr.canonical_call, Expr.canonical_call, Expr.retokenAll_eq_map, same]
  | fn token params body ih =>
    rw [Expr.retoken, Expr.canonical_fn, Expr.canonical_fn, Stmt.retokenAll_eq_map,
      Program.canonical, Program.canonical, Stmt.canonicals_retoken_of_values f ih]

theorem Program.canonical_retoken (p : Program) : (p.retoken f).canonical = p.canonical := by
  have same := Stmt.canonicals_retoken_of_values f fun s (_ : s ∈ p.statements) =>
    Expr.canonical_retoken f s.value
  rw [Program.canonical, Program.canonical, Program.retoken, Stmt.retokenAll_eq_map, same]

theorem Expr.highest_map_retoken {es : List Expr}
    (h : ∀ e ∈ es, (e.retoken f).height = e.height) :
    Expr.highest (es.map (Expr.retoken f)) = Expr.highest es := by
  induction es with
  | nil => rfl
  | cons e es ih =>
    have first := h e List.mem_cons_self
    have later := ih fun e' he => h e' (List.mem_cons_of_mem e he)
    rw [List.map_cons, Expr.highest, Expr.highest, first, later]

theorem Stmt.highest_map_retoken {ss : List Stmt}
    (h : ∀ s ∈ ss, (s.value.retoken f).height = s.value.height) :
    Stmt.highest (ss.map (Stmt.retoken f)) = Stmt.highest ss := by
  induction ss with
  | nil => rfl
  | cons s ss ih =>
    have first := h s List.mem_cons_self
    have later := ih fun s' hs => h s' (List.mem_cons_of_mem s hs)
    rw [← Stmt.value_retoken, Stmt.height_value, Stmt.height_value] at first
    rw [List.map_cons, Stmt.highest, Stmt.highest, first, later]

@[simp]
theorem Expr.height_retoken (e : Expr) : (e.retoken f).height = e.height := by
  induction e with
  | ident name => rfl
  | int token value => rfl
  | bool token value => rfl
  | unary token op operand ih => rw [Expr.retoken, Expr.height, Expr.height, ih]
  | binary token left op right ihLeft ihRight =>
    rw [Expr.retoken, Expr.height, Expr.height, ihLeft, ihRight]
  | call callee args ih =>
    rw [Expr.retoken, Expr.height, Expr.height, Expr.retokenAll_eq_map,
      Expr.highest_map_retoken f ih]
  | fn token params body ih =>
    rw [Expr.retoken, Expr.height, Expr.height, Stmt.retokenAll_eq_map,
      Stmt.highest_map_retoken f ih]

theorem Program.highest_retoken (p : Program) :
    Stmt.highest (p.retoken f).statements = Stmt.highest p.statements := by
  rw [Program.retoken, Stmt.retokenAll_eq_map]
  exact Stmt.highest_map_retoken f fun s _ => Expr.height_retoken f s.value

variable {f g}

theorem Stmt.retoken_retoken_of_value (h : ∀ v, f (v.retoken g) = f v) {s : Stmt}
    (inside : (s.value.retoken g).retoken f = s.value.retoken f) :
    (s.retoken g).retoken f = s.retoken f := by
  cases s <;> simp only [Stmt.value] at inside <;> simp [Stmt.retoken, h, inside]

/-- The last replacement counts, if it does not depend on the tokens replaced before. -/
theorem Expr.retoken_retoken (h : ∀ v, f (v.retoken g) = f v) (e : Expr) :
    (e.retoken g).retoken f = e.retoken f := by
  induction e with
  | ident name => rfl
  | int token value => rfl
  | bool token value => rfl
  | unary token op operand ih => simp [Expr.retoken, ih]
  | binary token left op right ihLeft ihRight => simp [Expr.retoken, ihLeft, ihRight]
  | call callee args ih => simpa [Expr.retoken] using ih
  | fn token params body ih =>
    simpa [Expr.retoken] using fun s hs => Stmt.retoken_retoken_of_value h (ih s hs)

theorem Program.retoken_retoken (h : ∀ v, f (v.retoken g) = f v) (p : Program) :
    (p.retoken g).retoken f = p.retoken f := by
  have same (s : Stmt) : (s.retoken g).retoken f = s.retoken f :=
    Stmt.retoken_retoken_of_value h (Expr.retoken_retoken h s.value)
  simp [Program.retoken, same]

/-- Replacing tokens of expression statements leaves an alike program. -/
theorem Program.alike_retoken (g : Expr → Token) (p : Program) : (p.retoken g).Alike p :=
  Program.retoken_retoken (fun _ => rfl) p

end

end MonkeySyntax
