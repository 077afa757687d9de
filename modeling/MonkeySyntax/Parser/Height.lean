import MonkeySyntax.Parser.Outcome

/-!
# Limits on nesting

Two limits keep parsing and printing within bounds.

* An expression tree is at most `maxHeight` nodes high, leaves not counted. Each rule hands on the
  height of what it has read (`Measured`), and a node is only built if that keeps the limit (`above`).
* At most `maxOpen` expressions are open inside one another while parsing. A tree of height `h` is
  printed with at most one pair of parentheses a node, so `2 * h + 1` open expressions are enough to
  read it back, and only parentheses without need run into this limit.
-/

namespace MonkeySyntax

/-- The largest height of an expression tree. -/
def maxHeight : Nat := 256

/-- The largest number of expressions that may be open inside one another. -/
def maxOpen : Nat := 2 * maxHeight + 1

/-- A value and the height of the expression tree it stands for. -/
structure Measured (α : Type) where
  value : α
  height : Nat

/-- The height of the highest of several trees; `0` when there is none. -/
def Measured.highest {α : Type} (xs : List (Measured α)) : Nat :=
  xs.foldl (fun height x => max height x.height) 0

/-- The height of a node above a tree of the given height, if the limit allows such a node. -/
def Parser.above (height : Nat) : Parser Nat :=
  if maxHeight ≤ height then Parser.fail (.nestingTooDeep maxHeight) else pure (height + 1)

end MonkeySyntax
