/-!
# Quoted text

Text between double quotes. What a format writes for each character inside the quotes is its
`escape`; the formats of this library differ in nothing else.
-/

namespace MonkeySyntax

/-- The text between double quotes, with each character written as `escape` says. -/
def quotedWith (escape : Char → String) (text : String) : String :=
  "\"" ++ String.join (text.toList.map escape) ++ "\""

end MonkeySyntax
