/-!
# Hexadecimal numbers

Numbers in lower-case hexadecimal digits: as few as needed (`Hex.digits`), or filled up with zeros on
the left to a given width (`Hex.padded`).
-/

namespace MonkeySyntax.Hex

/-- The shortest hexadecimal form of a number. -/
def digits (n : Nat) : String :=
  String.ofList (Nat.toDigits 16 n)

/-- The hexadecimal form of a number with at least `width` digits. -/
def padded (width n : Nat) : String :=
  String.ofList ((Nat.toDigits 16 n).leftpad width '0')

end MonkeySyntax.Hex
