import MonkeySyntax.Tree

/-!
# Equality of trees

Two trees are equal when every field of every node is, tokens included. `Expr.same` and its
companions compare structurally, `Expr.same_iff` says that they decide equality, and the
`DecidableEq` instances follow.
-/

namespace MonkeySyntax

mutual

/-- Structural comparison of expressions. -/
def Expr.same : Expr → Expr → Bool
  | .ident a, .ident b => decide (a = b)
  | .int s a, .int t b => decide (s = t) && decide (a = b)
  | .bool s a, .bool t b => decide (s = t) && decide (a = b)
  | .unary s o a, .unary t p b => decide (s = t) && decide (o = p) && a.same b
  | .binary s a o c, .binary t b p d => decide (s = t) && decide (o = p) && a.same b && c.same d
  | .call f as, .call g bs => decide (f = g) && Expr.sameAll as bs
  | .fn s ps a, .fn t qs b => decide (s = t) && decide (ps = qs) && Stmt.sameAll a b
  | _, _ => false

/-- Structural comparison of argument lists. -/
def Expr.sameAll : List Expr → List Expr → Bool
  | [], [] => true
  | a :: as, b :: bs => a.same b && Expr.sameAll as bs
  | _, _ => false

/-- Structural comparison of statements. -/
def Stmt.same : Stmt → Stmt → Bool
  | .binding s m a, .binding t n b => decide (s = t) && decide (m = n) && a.same b
  | .ret s a, .ret t b => decide (s = t) && a.same b
  | .expr s a, .expr t b => decide (s = t) && a.same b
  | _, _ => false

/-- Structural comparison of statement lists. -/
def Stmt.sameAll : List Stmt → List Stmt → Bool
  | [], [] => true
  | a :: as, b :: bs => a.same b && Stmt.sameAll as bs
  | _, _ => false

end

mutual

theorem Expr.same_iff : ∀ a b : Expr, a.same b = true ↔ a = b
  | .ident _, b => by cases b <;> simp [Expr.same]
  | .int _ _, b => by cases b <;> simp [Expr.same]
  | .bool _ _, b => by cases b <;> simp [Expr.same]
  | .unary _ _ a, b => by
    cases b with
    | unary _ _ b => simp [Expr.same, Expr.same_iff a b, and_assoc]
    | _ => simp [Expr.same]
  | .binary _ a _ c, b => by
    cases b with
    | binary _ b _ d =>
      simp only [Expr.same, Bool.and_eq_true, decide_eq_true_eq, Expr.same_iff a b,
        Expr.same_iff c d, Expr.binary.injEq]
      constructor <;> (rintro h; simp_all)
    | _ => simp [Expr.same]
  | .call _ as, b => by
    cases b with
    | call _ bs => simp [Expr.same, Expr.sameAll_iff as bs]
    | _ => simp [Expr.same]
  | .fn _ _ a, b => by
    cases b with
    | fn _ _ b => simp [Expr.same, Stmt.sameAll_iff a b, and_assoc]
    | _ => simp [Expr.same]

theorem Expr.sameAll_iff : ∀ as bs : List Expr, Expr.sameAll as bs = true ↔ as = bs
  | [], bs => by cases bs <;> simp [Expr.sameAll]
  | a :: as, bs => by
    cases bs with
    | nil => simp [Expr.sameAll]
    | cons b bs => simp [Expr.sameAll, Expr.same_iff a b, Expr.sameAll_iff as bs]

theorem Stmt.same_iff : ∀ a b : Stmt, a.same b = true ↔ a = b
  | .binding _ _ a, b => by
    cases b with
    | binding _ _ b => simp [Stmt.same, Expr.same_iff a b, and_assoc]
    | _ => simp [Stmt.same]
  | .ret _ a, b => by
    cases b with
    | ret _ b => simp [Stmt.same, Expr.same_iff a b]
    | _ => simp [Stmt.same]
  | .expr _ a, b => by
    cases b with
    | expr _ b => simp [Stmt.same, Expr.same_iff a b]
    | _ => simp [Stmt.same]

theorem Stmt.sameAll_iff : ∀ as bs : List Stmt, Stmt.sameAll as bs = true ↔ as = bs
  | [], bs => by cases bs <;> simp [Stmt.sameAll]
  | a :: as, bs => by
    cases bs with
    | nil => simp [Stmt.sameAll]
    | cons b bs => simp [Stmt.sameAll, Stmt.same_iff a b, Stmt.sameAll_iff as bs]

end

instance : DecidableEq Expr := fun a b => decidable_of_iff _ (Expr.same_iff a b)

instance : DecidableEq Stmt := fun a b => decidable_of_iff _ (Stmt.same_iff a b)

instance : DecidableEq Program := fun p q =>
  decidable_of_iff (Stmt.sameAll p.statements q.statements = true) <| by
    cases p
    cases q
    simp [Stmt.sameAll_iff]

end MonkeySyntax
