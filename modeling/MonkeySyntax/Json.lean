import MonkeySyntax.Hex
import MonkeySyntax.Quoted

/-!
# JSON

JSON values and two ways of writing them: `Json.compact` without any layout, and `Json.pretty` with one
member a line and two spaces a level. Members of objects are written in the order in which they stand.
-/

namespace MonkeySyntax

/-- A JSON value; numbers are integers. -/
inductive Json where
  | text (s : String)
  | int (n : Int)
  | bool (b : Bool)
  | array (items : List Json)
  | object (members : List (String × Json))

namespace Json

/-- What stands for a character inside quotes: quotes, backslashes and the control characters below
space are escaped. -/
def escape (c : Char) : String :=
  if c = '"' then "\\\""
  else if c = '\\' then "\\\\"
  else if c = '\x08' then "\\b"
  else if c = '\x0c' then "\\f"
  else if c = '\n' then "\\n"
  else if c = '\r' then "\\r"
  else if c = '\t' then "\\t"
  else if c.toNat < 0x20 then "\\u" ++ Hex.padded 4 c.toNat
  else String.singleton c

/-- A text as a JSON string. -/
def quoted (s : String) : String := quotedWith escape s

/-! ## Without layout -/

mutual

/-- The value as JSON text without any layout. -/
def compact : Json → String
  | text s => quoted s
  | int n => toString n
  | bool b => if b then "true" else "false"
  | array items => "[" ++ ",".intercalate (compactItems [] items) ++ "]"
  | object members => "\x7b" ++ ",".intercalate (compactMembers [] members) ++ "\x7d"

/-- The compact texts of the items, after those of earlier ones (latest first). -/
def compactItems (seen : List String) : List Json → List String
  | [] => seen.reverse
  | item :: items => compactItems (item.compact :: seen) items

/-- The compact texts of the members, after those of earlier ones (latest first). -/
def compactMembers (seen : List String) : List (String × Json) → List String
  | [] => seen.reverse
  | (key, value) :: members =>
    compactMembers ((quoted key ++ ":" ++ value.compact) :: seen) members

end

theorem compactItems_eq (seen : List String) (items : List Json) :
    compactItems seen items = seen.reverse ++ items.map compact := by
  induction items generalizing seen with
  | nil => simp [compactItems]
  | cons item items ih => simp [compactItems, ih]

theorem compactMembers_eq (seen : List String) (members : List (String × Json)) :
    compactMembers seen members =
      seen.reverse ++ members.map fun m => quoted m.1 ++ ":" ++ m.2.compact := by
  induction members generalizing seen with
  | nil => simp [compactMembers]
  | cons m members ih => simp [compactMembers, ih]

/-! ## With layout -/

/-- A line break and the indentation of a level. -/
def newline (level : Nat) : String :=
  "\n" ++ String.ofList (List.replicate (2 * level) ' ')

/-- The pieces between brackets, each on a line of its own; nothing between them if there is none. -/
def bracketed (left right : String) (level : Nat) : List String → String
  | [] => left ++ right
  | pieces =>
    left ++ newline (level + 1) ++ ("," ++ newline (level + 1)).intercalate pieces ++ newline level
      ++ right

mutual

/-- The value as JSON text with one item or member a line, from a given level of indentation. -/
def prettyAt (level : Nat) : Json → String
  | text s => quoted s
  | int n => toString n
  | bool b => if b then "true" else "false"
  | array items => bracketed "[" "]" level (prettyItems (level + 1) [] items)
  | object members => bracketed "\x7b" "\x7d" level (prettyMembers (level + 1) [] members)

/-- The texts of the items at a level, after those of earlier ones (latest first). -/
def prettyItems (level : Nat) (seen : List String) : List Json → List String
  | [] => seen.reverse
  | item :: items => prettyItems level (item.prettyAt level :: seen) items

/-- The texts of the members at a level, after those of earlier ones (latest first). -/
def prettyMembers (level : Nat) (seen : List String) : List (String × Json) → List String
  | [] => seen.reverse
  | (key, value) :: members =>
    prettyMembers level ((quoted key ++ ": " ++ value.prettyAt level) :: seen) members

end

/-- The value as JSON text with one item or member a line. -/
def pretty (j : Json) : String := j.prettyAt 0

theorem prettyItems_eq (level : Nat) (seen : List String) (items : List Json) :
    prettyItems level seen items = seen.reverse ++ items.map (prettyAt level) := by
  induction items generalizing seen with
  | nil => simp [prettyItems]
  | cons item items ih => simp [prettyItems, ih]

theorem prettyMembers_eq (level : Nat) (seen : List String) (members : List (String × Json)) :
    prettyMembers level seen members =
      seen.reverse ++ members.map fun m => quoted m.1 ++ ": " ++ m.2.prettyAt level := by
  induction members generalizing seen with
  | nil => simp [prettyMembers]
  | cons m members ih => simp [prettyMembers, ih]

end Json

end MonkeySyntax
