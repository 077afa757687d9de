import MonkeySyntax.Json

/-!
# Labelled data

A `Datum` describes a structured value with the names of its parts: records and their fields,
alternatives and what they hold, lists and plain values. It is the common source of every dump:

* `Datum.json` — as JSON. An alternative becomes an object with its name as the only key; the names of
  record types are left out.
* `Datum.oneLine` — all names written out, on one line.
* `Datum.indented` — the same with one part a line and four spaces a level.
-/

namespace MonkeySyntax

/-- A value with the names of its parts. -/
inductive Datum where
  /-- A text, shown in quotes. -/
  | text (s : String)
  /-- An integer. -/
  | int (n : Int)
  /-- A truth value. -/
  | bool (b : Bool)
  /-- An alternative that holds nothing. -/
  | tag (title : String)
  /-- An alternative that holds one value. -/
  | wrapped (title : String) (content : Datum)
  /-- An alternative that holds named fields. -/
  | variant (title : String) (fields : List (String × Datum))
  /-- A record of the named type. -/
  | record (title : String) (fields : List (String × Datum))
  /-- Any number of values. -/
  | list (items : List Datum)

namespace Datum

/-! ## As JSON -/

mutual

/-- The datum as a JSON value. -/
def json : Datum → Json
  | text s => .text s
  | int n => .int n
  | bool b => .bool b
  | tag title => .text title
  | wrapped title content => .object [(title, content.json)]
  | variant title fields => .object [(title, .object (jsonFields [] fields))]
  | record _ fields => .object (jsonFields [] fields)
  | list items => .array (jsonItems [] items)

/-- The items as JSON values, after earlier ones (latest first). -/
def jsonItems (seen : List Json) : List Datum → List Json
  | [] => seen.reverse
  | item :: items => jsonItems (item.json :: seen) items

/-- The fields as members of an object, after earlier ones (latest first). -/
def jsonFields (seen : List (String × Json)) : List (String × Datum) → List (String × Json)
  | [] => seen.reverse
  | (label, value) :: fields => jsonFields ((label, value.json) :: seen) fields

end

theorem jsonItems_eq (seen : List Json) (items : List Datum) :
    jsonItems seen items = seen.reverse ++ items.map json := by
  induction items generalizing seen with
  | nil => simp [jsonItems]
  | cons item items ih => simp [jsonItems, ih]

theorem jsonFields_eq (seen : List (String × Json)) (fields : List (String × Datum)) :
    jsonFields seen fields = seen.reverse ++ fields.map fun f => (f.1, f.2.json) := by
  induction fields generalizing seen with
  | nil => simp [jsonFields]
  | cons f fields ih => simp [jsonFields, ih]

/-! ## In words -/

/-- Whether a character is written by its code: the control characters of ASCII and Latin-1, the
no-break space and the soft hyphen. -/
def isHidden (c : Char) : Bool :=
  c.toNat < 0x20 || (0x7f ≤ c.toNat && c.toNat ≤ 0xa0) || c.toNat = 0xad

/-- What stands for a character inside quotes. -/
def escape (c : Char) : String :=
  if c = '"' then "\\\""
  else if c = '\\' then "\\\\"
  else if c = '\x00' then "\\0"
  else if c = '\t' then "\\t"
  else if c = '\n' then "\\n"
  else if c = '\r' then "\\r"
  else if isHidden c then "\\u\x7b" ++ Hex.digits c.toNat ++ "\x7d"
  else String.singleton c

/-- A text in quotes. -/
def quoted (s : String) : String := quotedWith escape s

mutual

/-- The datum on one line. -/
def oneLine : Datum → String
  | text s => quoted s
  | int n => toString n
  | bool b => if b then "true" else "false"
  | tag title => title
  | wrapped title content => title ++ "(" ++ content.oneLine ++ ")"
  | variant title fields =>
    title ++ " \x7b " ++ ", ".intercalate (oneLineFields [] fields) ++ " \x7d"
  | record title fields =>
    title ++ " \x7b " ++ ", ".intercalate (oneLineFields [] fields) ++ " \x7d"
  | list items => "[" ++ ", ".intercalate (oneLineItems [] items) ++ "]"

/-- The items, each on one line, after earlier ones (latest first). -/
def oneLineItems (seen : List String) : List Datum → List String
  | [] => seen.reverse
  | item :: items => oneLineItems (item.oneLine :: seen) items

/-- The fields, each on one line, after earlier ones (latest first). -/
def oneLineFields (seen : List String) : List (String × Datum) → List String
  | [] => seen.reverse
  | (label, value) :: fields => oneLineFields ((label ++ ": " ++ value.oneLine) :: seen) fields

end

theorem oneLineItems_eq (seen : List String) (items : List Datum) :
    oneLineItems seen items = seen.reverse ++ items.map oneLine := by
  induction items generalizing seen with
  | nil => simp [oneLineItems]
  | cons item items ih => simp [oneLineItems, ih]

theorem oneLineFields_eq (seen : List String) (fields : List (String × Datum)) :
    oneLineFields seen fields =
      seen.reverse ++ fields.map fun f => f.1 ++ ": " ++ f.2.oneLine := by
  induction fields generalizing seen with
  | nil => simp [oneLineFields]
  | cons f fields ih => simp [oneLineFields, ih]

/-- A line break and the indentation of a level. -/
def newline (level : Nat) : String :=
  "\n" ++ String.ofList (List.replicate (4 * level) ' ')

/-- The pieces between brackets, each on a line of its own and closed by a comma; nothing between the
brackets if there is none. -/
def bracketed (left right : String) (level : Nat) : List String → String
  | [] => left ++ right
  | pieces =>
    left ++ String.join (pieces.map fun piece => newline (level + 1) ++ piece ++ ",")
      ++ newline level ++ right

mutual

/-- The datum with one part a line, from a given level of indentation. -/
def indentedAt (level : Nat) : Datum → String
  | text s => quoted s
  | int n => toString n
  | bool b => if b then "true" else "false"
  | tag title => title
  | wrapped title content =>
    title ++ bracketed "(" ")" level [content.indentedAt (level + 1)]
  | variant title fields =>
    title ++ bracketed " \x7b" "\x7d" level (indentedFields (level + 1) [] fields)
  | record title fields =>
    title ++ bracketed " \x7b" "\x7d" level (indentedFields (level + 1) [] fields)
  | list items => bracketed "[" "]" level (indentedItems (level + 1) [] items)

/-- The items at a level, after earlier ones (latest first). -/
def indentedItems (level : Nat) (seen : List String) : List Datum → List String
  | [] => seen.reverse
  | item :: items => indentedItems level (item.indentedAt level :: seen) items

/-- The fields at a level, after earlier ones (latest first). -/
def indentedFields (level : Nat) (seen : List String) : List (String × Datum) → List String
  | [] => seen.reverse
  | (label, value) :: fields =>
    indentedFields level ((label ++ ": " ++ value.indentedAt level) :: seen) fields

end

/-- The datum with one part a line. -/
def indented (d : Datum) : String := d.indentedAt 0

theorem indentedItems_eq (level : Nat) (seen : List String) (items : List Datum) :
    indentedItems level seen items = seen.reverse ++ items.map (indentedAt level) := by
  induction items generalizing seen with
  | nil => simp [indentedItems]
  | cons item items ih => simp [indentedItems, ih]

theorem indentedFields_eq (level : Nat) (seen : List String) (fields : List (String × Datum)) :
    indentedFields level seen fields =
      seen.reverse ++ fields.map fun f => f.1 ++ ": " ++ f.2.indentedAt level := by
  induction fields generalizing seen with
  | nil => simp [indentedFields]
  | cons f fields ih => simp [indentedFields, ih]

end Datum

end MonkeySyntax
