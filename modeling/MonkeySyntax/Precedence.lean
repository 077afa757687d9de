import MonkeySyntax.Token

/-!
# Binding strength

Six precedence levels, weakest first, and the level at which each kind of token binds when it stands
between two operands. A kind that is no binary operator binds at `lowest`, hence never continues an
expression.
-/

namespace MonkeySyntax

/-- How tightly an operator holds its operands, weakest first. -/
inductive Precedence where
  | lowest
  | equality
  | comparison
  | sum
  | product
  | unary
  deriving DecidableEq

namespace Precedence

/-- The position of a level, counted from the weakest. -/
def rank : Precedence → Nat
  | lowest => 0
  | equality => 1
  | comparison => 2
  | sum => 3
  | product => 4
  | unary => 5

instance : LT Precedence := ⟨fun p q => p.rank < q.rank⟩

instance : LE Precedence := ⟨fun p q => p.rank ≤ q.rank⟩

instance (p q : Precedence) : Decidable (p < q) :=
  inferInstanceAs (Decidable (p.rank < q.rank))

instance (p q : Precedence) : Decidable (p ≤ q) :=
  inferInstanceAs (Decidable (p.rank ≤ q.rank))

instance : Ord Precedence := ⟨fun p q => compare p.rank q.rank⟩

theorem rank_injective {p q : Precedence} (h : p.rank = q.rank) : p = q := by
  cases p <;> cases q <;> simp_all [rank]

theorem not_lt {p q : Precedence} : ¬ p < q ↔ q ≤ p :=
  Nat.not_lt

end Precedence

/-- The precedence of a kind between two operands. -/
def Kind.precedence : Kind → Precedence
  | .equals | .notEquals => .equality
  | .lessThan | .greaterThan => .comparison
  | .plus | .minus => .sum
  | .asterisk | .slash => .product
  | _ => .lowest

end MonkeySyntax
