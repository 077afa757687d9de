import MonkeySyntax.Json
import MonkeySyntax.Proofs.Readable

/-!
# JSON can be read back

* `Json.readable_compact` — the compact text of a value is the text of no other value, and it is clear
  where it ends.
* `Json.withoutLayout` — a text without the spaces and the line breaks outside its string literals.
* `Json.withoutLayout_pretty` — the layout is all that the indented text has in addition to the compact
  one.
-/

namespace MonkeySyntax.Json

/-- Induction on JSON values, through the items of arrays and the values of members. -/
@[elab_as_elim, induction_eliminator]
theorem induction {motive : Json → Prop} (text : ∀ s, motive (.text s))
    (int : ∀ n, motive (.int n)) (bool : ∀ b, motive (.bool b))
    (array : ∀ items, (∀ item ∈ items, motive item) → motive (.array items))
    (object : ∀ members, (∀ m ∈ members, motive m.2) → motive (.object members)) (j : Json) :
    motive j := by
  apply @Json.rec motive (fun items => ∀ item ∈ items, motive item)
    (fun members => ∀ m ∈ members, motive m.2) (fun m => motive m.2) text int bool array object
  case nil => exact fun _ h => absurd h List.not_mem_nil
  case cons => exact fun _ _ first later => List.forall_mem_cons.mpr ⟨first, later⟩
  case nil => exact fun _ h => absurd h List.not_mem_nil
  case cons => exact fun _ _ first later => List.forall_mem_cons.mpr ⟨first, later⟩
  case mk => exact fun _ _ h => h

/-! ## String literals -/

/-- The value of a hexadecimal digit. -/
def hexValue (c : Char) : Nat :=
  if c.isDigit then c.toNat - '0'.toNat else c.toNat - 'a'.toNat + 10

/-- What a character behind a backslash stands for. -/
def unescaped (c : Char) : Char :=
  match c with
  | 'b' => '\x08'
  | 'f' => '\x0c'
  | 'n' => '\n'
  | 'r' => '\r'
  | 't' => '\t'
  | c => c

/-- What may stand for a character in a string literal: the character itself, a backslash with one
character, or one with the code of the character. -/
inductive Escapes (c : Char) : List Char → Prop
  | itself (quote : c ≠ '"') (backslash : c ≠ '\\') : Escapes c [c]
  | short (letter : Char) (notCode : letter ≠ 'u') (stands : unescaped letter = c) :
    Escapes c ['\\', letter]
  | code (high low : Nat) (high_lt : high < 16) (low_lt : low < 16)
    (stands : Char.ofNat (16 * high + low) = c) :
    Escapes c ['\\', 'u', '0', '0', high.digitChar, low.digitChar]

theorem toList_padded : ∀ n, n < 0x20 →
    (Hex.padded 4 n).toList = ['0', '0', (n / 16).digitChar, (n % 16).digitChar] := by
  decide +kernel

theorem escapes_escape (c : Char) : Escapes c (escape c).toList := by
  unfold escape
  split
  · exact .short '"' (by decide) (by subst c; rfl)
  split
  · exact .short '\\' (by decide) (by subst c; rfl)
  split
  · exact .short 'b' (by decide) (by subst c; rfl)
  split
  · exact .short 'f' (by decide) (by subst c; rfl)
  split
  · exact .short 'n' (by decide) (by subst c; rfl)
  split
  · exact .short 'r' (by decide) (by subst c; rfl)
  split
  · exact .short 't' (by decide) (by subst c; rfl)
  split
  · rename_i control
    rw [String.toList_append, toList_padded _ control]
    refine .code (c.toNat / 16) (c.toNat % 16) (by omega) (by omega) ?_
    rw [Nat.div_add_mod, Char.ofNat_toNat]
  · rename_i quote backslash _ _ _ _ _ _
    rw [String.toList_singleton]
    exact .itself quote backslash

/-- The first character of what stands in a string literal, and what is left. -/
def readEscaped : List Char → Option (Char × List Char)
  | [] => none
  | '\\' :: 'u' :: _ :: _ :: high :: low :: cs =>
    some (Char.ofNat (16 * hexValue high + hexValue low), cs)
  | '\\' :: c :: cs => some (unescaped c, cs)
  | c :: cs => if c = '"' then none else some (c, cs)

theorem hexValue_digitChar : ∀ d, d < 16 → hexValue d.digitChar = d := by decide

theorem Escapes.read {c : Char} {w : List Char} (h : Escapes c w) (r : List Char) :
    readEscaped (w ++ r) = some (c, r) := by
  cases h with
  | itself quote backslash =>
    rw [List.singleton_append, readEscaped]
    · rw [if_neg quote]
    · rintro _ _ _ _ _ rfl
      contradiction
    · rintro _ _ rfl
      contradiction
  | short letter notCode stands =>
    rw [List.cons_append, List.singleton_append, readEscaped, stands]
    rintro _ _ _ _ _ rfl
    contradiction
  | code high low high_lt low_lt stands =>
    show some (Char.ofNat (16 * hexValue high.digitChar + hexValue low.digitChar), r) = some (c, r)
    rw [hexValue_digitChar _ high_lt, hexValue_digitChar _ low_lt, stands]

theorem escapeCode : EscapeCode escape :=
  .of_read (fun c => (escapes_escape c).read) fun _ => rfl

/-- A string literal is the literal of one text only, whatever follows. -/
theorem quoted_inj {s t : String} {r r' : List Char}
    (same : (quoted s).toList ++ r = (quoted t).toList ++ r') : s = t ∧ r = r' :=
  escapeCode.quotedWith_inj same

/-! ## Compact texts -/

/-- What can be told of a value from the first character of its text. -/
inductive Shape where
  | text
  | int
  | bool
  | array
  | object

/-- The shape of a value. -/
def shape : Json → Shape
  | text _ => .text
  | int _ => .int
  | bool _ => .bool
  | array _ => .array
  | object _ => .object

/-- The shape of the values whose texts begin with a character, if any do. -/
def Shape.ofFirst? : Char → Option Shape
  | '"' => some .text
  | 't' => some .bool
  | 'f' => some .bool
  | '[' => some .array
  | '\x7b' => some .object
  | c => if isNumeral c then some .int else none

/-- A numeral is not empty and begins as no other value does. -/
theorem exists_toString_eq_cons (n : Int) :
    ∃ c cs, (toString n).toList = c :: cs ∧ Shape.ofFirst? c = some .int := by
  cases front : (toString n).toList with
  | nil =>
    have zero := ofNumeral_toString n
    rw [front] at zero
    subst zero
    exact absurd front (by decide)
  | cons c cs =>
    have numeral := isNumeral_of_mem_toString c (front ▸ List.mem_cons_self)
    refine ⟨c, cs, rfl, ?_⟩
    unfold Shape.ofFirst?
    split
    case h_6 => rw [if_pos numeral]
    all_goals exact absurd numeral (by decide)

theorem compact_array (items : List Json) :
    (array items).compact = "[" ++ ",".intercalate (items.map compact) ++ "]" := by
  rw [compact, compactItems_eq]
  rfl

/-- The compact text of a member of an object. -/
def compactMember (m : String × Json) : String := quoted m.1 ++ ":" ++ m.2.compact

theorem compact_object (members : List (String × Json)) :
    (object members).compact = "\x7b" ++ ",".intercalate (members.map compactMember) ++ "\x7d" := by
  rw [compact, compactMembers_eq]
  rfl

theorem exists_compact_eq_cons (j : Json) :
    ∃ c cs, j.compact.toList = c :: cs ∧ Shape.ofFirst? c = some j.shape := by
  cases j with
  | text s => exact ⟨_, _, toList_quotedWith escape s, rfl⟩
  | int n => exact exists_toString_eq_cons n
  | bool b => cases b <;> exact ⟨_, _, rfl, rfl⟩
  | array items =>
    rw [compact_array, String.toList_append, String.toList_append]
    exact ⟨_, _, rfl, rfl⟩
  | object members =>
    rw [compact_object, String.toList_append, String.toList_append]
    exact ⟨_, _, rfl, rfl⟩

theorem shape_eq_of_compact {a b : Json} {r r' : List Char}
    (same : a.compact.toList ++ r = b.compact.toList ++ r') : a.shape = b.shape := by
  obtain ⟨c, cs, front, shape⟩ := a.exists_compact_eq_cons
  obtain ⟨c', cs', front', shape'⟩ := b.exists_compact_eq_cons
  rw [front, front'] at same
  rw [(List.cons.inj same).1] at shape
  exact Option.some.inj (shape.symm.trans shape')

/-- No value begins with a bracket that ends a list. -/
theorem compact_append_ne {close : Char} (h : Shape.ofFirst? close = none) (j : Json)
    (r r' : List Char) : j.compact.toList ++ r ≠ close :: r' := by
  intro same
  obtain ⟨c, cs, front, shape⟩ := j.exists_compact_eq_cons
  rw [front] at same
  rw [(List.cons.inj same).1, h] at shape
  cases shape

theorem compactMember_append_ne (m : String × Json) (r r' : List Char) :
    (compactMember m).toList ++ r ≠ '\x7d' :: r' := by
  intro same
  rw [compactMember, String.toList_append, String.toList_append, quoted, toList_quotedWith] at same
  exact absurd (List.cons.inj same).1 (by decide)

theorem readable_compactMember {m : String × Json} (value : Readable compact m.2) :
    Readable compactMember m := by
  rintro ⟨key, j⟩ r r' ends ends' same
  simp only [compactMember, String.toList_append, List.append_assoc] at same
  obtain ⟨rfl, later⟩ := quoted_inj same
  obtain ⟨rfl, rest⟩ := value j r r' ends ends' (List.append_cancel_left later)
  exact ⟨rfl, rest⟩

/-- The compact text of a value is the text of no other value, and it is clear where it ends. -/
theorem readable_compact (a : Json) : Readable compact a := by
  induction a with
  | text s =>
    intro b r r' _ _ same
    cases b with
    | text t =>
      obtain ⟨rfl, rest⟩ := quoted_inj same
      exact ⟨rfl, rest⟩
    | _ => nomatch shape_eq_of_compact same
  | int n =>
    intro b r r' ends ends' same
    cases b with
    | int m =>
      obtain ⟨rfl, rest⟩ := readable_toString n m r r' ends ends' same
      exact ⟨rfl, rest⟩
    | _ => nomatch shape_eq_of_compact same
  | bool x =>
    intro b r r' _ _ same
    cases b with
    | bool y =>
      cases x <;> cases y <;> simp [compact] at same ⊢
      all_goals exact same
    | _ => nomatch shape_eq_of_compact same
  | array items ih =>
    intro b r r' _ _ same
    cases b with
    | array items' =>
      simp only [compact_array, String.toList_append, List.append_assoc] at same
      obtain ⟨rfl, rest⟩ := intercalate_inj rfl (by decide) (by decide) (by decide)
        (compact_append_ne rfl) ih (List.append_cancel_left same)
      exact ⟨rfl, rest⟩
    | _ => nomatch shape_eq_of_compact same
  | object members ih =>
    intro b r r' _ _ same
    cases b with
    | object members' =>
      simp only [compact_object, String.toList_append, List.append_assoc] at same
      obtain ⟨rfl, rest⟩ := intercalate_inj rfl (by decide) (by decide) (by decide)
        compactMember_append_ne (fun m mem => readable_compactMember (ih m mem))
        (List.append_cancel_left same)
      exact ⟨rfl, rest⟩
    | _ => nomatch shape_eq_of_compact same

theorem compact_injective {a b : Json} (same : a.compact = b.compact) : a = b :=
  (readable_compact a b [] [] .nil .nil (by rw [same])).1

/-! ## Layout -/

/-- Where a character stands. -/
inductive Place where
  /-- Between string literals. -/
  | outside
  /-- In a string literal. -/
  | inside
  /-- In a string literal, behind a backslash. -/
  | escaped

/-- The text without the spaces and line breaks between string literals. -/
def dropLayout : Place → List Char → List Char
  | _, [] => []
  | .outside, c :: cs =>
    if c = ' ' ∨ c = '\n' then dropLayout .outside cs
    else c :: dropLayout (if c = '"' then .inside else .outside) cs
  | .inside, c :: cs =>
    c :: dropLayout (if c = '"' then .outside else if c = '\\' then .escaped else .inside) cs
  | .escaped, c :: cs => c :: dropLayout .inside cs

/-- The text without the spaces and line breaks outside its string literals. -/
def withoutLayout (text : String) : String := .ofList (dropLayout .outside text.toList)

theorem dropLayout_blank {w : List Char} (h : ∀ c ∈ w, c = ' ' ∨ c = '\n') (r : List Char) :
    dropLayout .outside (w ++ r) = dropLayout .outside r := by
  induction w with
  | nil => rfl
  | cons c w ih =>
    rw [List.forall_mem_cons] at h
    rw [List.cons_append, dropLayout, if_pos h.1, ih h.2]

/-- Whether a character is neither layout nor begins a string literal. -/
def isPlain (c : Char) : Bool := c ≠ '"' && c ≠ ' ' && c ≠ '\n'

theorem isPlain_of_isNumeral {c : Char} (numeral : isNumeral c = true) : isPlain c = true := by
  simp only [isPlain, Bool.and_eq_true, decide_eq_true_iff]
  refine ⟨⟨?_, ?_⟩, ?_⟩ <;> rintro rfl <;> exact absurd numeral (by decide)

theorem dropLayout_plain {w : List Char} (h : w.all isPlain = true)
    (r : List Char) : dropLayout .outside (w ++ r) = w ++ dropLayout .outside r := by
  induction w with
  | nil => rfl
  | cons c w ih =>
    simp only [List.all_cons, isPlain, Bool.and_eq_true, decide_eq_true_iff] at h
    obtain ⟨⟨⟨quote, space⟩, lineBreak⟩, later⟩ := h
    rw [List.cons_append, dropLayout, if_neg (by simp [space, lineBreak]), if_neg quote, ih later]
    rfl

theorem Escapes.dropLayout {c : Char} {w : List Char} (h : Escapes c w) (r : List Char) :
    Json.dropLayout .inside (w ++ r) = w ++ Json.dropLayout .inside r := by
  cases h with
  | itself quote backslash =>
    rw [List.singleton_append, Json.dropLayout, if_neg quote, if_neg backslash]
    rfl
  | short letter notCode stands => rfl
  | code high low high_lt low_lt stands =>
    have digit : ∀ d, d < 16 → d.digitChar ≠ '"' ∧ d.digitChar ≠ '\\' := by decide
    have passes {d : Nat} (lt : d < 16) (cs : List Char) :
        Json.dropLayout .inside (d.digitChar :: cs) =
          d.digitChar :: Json.dropLayout .inside cs := by
      rw [Json.dropLayout, if_neg (digit d lt).1, if_neg (digit d lt).2]
    show '\\' :: 'u' :: '0' :: '0' ::
      Json.dropLayout .inside (high.digitChar :: low.digitChar :: r) = _
    rw [passes high_lt, passes low_lt]
    rfl

/-- Nothing is dropped of a string literal. -/
theorem dropLayout_quoted (s : String) (r : List Char) :
    dropLayout .outside ((quoted s).toList ++ r) = (quoted s).toList ++ dropLayout .outside r := by
  have inside (cs : List Char) :
      dropLayout .inside (cs.flatMap (fun c => (escape c).toList) ++ '"' :: r) =
        cs.flatMap (fun c => (escape c).toList) ++ '"' :: dropLayout .outside r := by
    induction cs with
    | nil => rfl
    | cons c cs ih =>
      rw [List.flatMap_cons, List.append_assoc, (escapes_escape c).dropLayout, ih, List.append_assoc]
  rw [quoted, toList_quotedWith]
  simp only [List.cons_append, List.append_assoc, List.nil_append]
  rw [← inside]
  rfl

theorem dropLayout_newline (level : Nat) (r : List Char) :
    dropLayout .outside ((newline level).toList ++ r) = dropLayout .outside r := by
  apply dropLayout_blank
  simp [newline]

section

variable {α : Type} {pretty compact : α → String} {xs : List α}

/-- The line breaks behind the commas of a list are dropped. -/
theorem dropLayout_intercalate (level : Nat)
    (each : ∀ x ∈ xs, ∀ r, dropLayout .outside ((pretty x).toList ++ r) =
      (compact x).toList ++ dropLayout .outside r) (r : List Char) :
    dropLayout .outside ((("," ++ newline level).intercalate (xs.map pretty)).toList ++ r) =
      (",".intercalate (xs.map compact)).toList ++ dropLayout .outside r := by
  induction xs with
  | nil => rfl
  | cons x xs ih =>
    rw [List.forall_mem_cons] at each
    cases xs with
    | nil => simpa using each.1 r
    | cons y ys =>
      have later := ih each.2
      simp only [List.map_cons, String.intercalate_cons_cons, String.toList_append,
        List.append_assoc] at later ⊢
      rw [each.1, dropLayout_plain (by decide), dropLayout_newline, later]

/-- The line breaks of a list are dropped. -/
theorem dropLayout_bracketed {left right : String} (left_plain : left.toList.all isPlain = true)
    (right_plain : right.toList.all isPlain = true) (level : Nat)
    (each : ∀ x ∈ xs, ∀ r, dropLayout .outside ((pretty x).toList ++ r) =
      (compact x).toList ++ dropLayout .outside r) (r : List Char) :
    dropLayout .outside ((bracketed left right level (xs.map pretty)).toList ++ r) =
      (left ++ ",".intercalate (xs.map compact) ++ right).toList ++ dropLayout .outside r := by
  have list := dropLayout_intercalate (level + 1) each
  cases xs with
  | nil =>
    simp only [List.map_nil, bracketed, String.toList_append, List.append_assoc] at list ⊢
    rw [dropLayout_plain left_plain, dropLayout_plain right_plain]
    rfl
  | cons x xs =>
    simp only [List.map_cons, bracketed, String.toList_append, List.append_assoc] at list ⊢
    rw [dropLayout_plain left_plain, dropLayout_newline, list, dropLayout_newline,
      dropLayout_plain right_plain]

end

theorem prettyAt_array (level : Nat) (items : List Json) : (array items).prettyAt level =
    bracketed "[" "]" level (items.map (prettyAt (level + 1))) := by
  rw [prettyAt, prettyItems_eq]
  rfl

/-- The indented text of a member of an object. -/
def prettyMember (level : Nat) (m : String × Json) : String :=
  quoted m.1 ++ ": " ++ m.2.prettyAt level

theorem prettyAt_object (level : Nat) (members : List (String × Json)) :
    (object members).prettyAt level =
      bracketed "\x7b" "\x7d" level (members.map (prettyMember (level + 1))) := by
  rw [prettyAt, prettyMembers_eq]
  rfl

theorem dropLayout_prettyMember {level : Nat} {m : String × Json}
    (value : ∀ r, dropLayout .outside ((m.2.prettyAt level).toList ++ r) =
      m.2.compact.toList ++ dropLayout .outside r) (r : List Char) :
    dropLayout .outside ((prettyMember level m).toList ++ r) =
      (compactMember m).toList ++ dropLayout .outside r := by
  have colon (cs : List Char) :
      dropLayout .outside (": ".toList ++ cs) = ':' :: dropLayout .outside cs := rfl
  simp only [prettyMember, compactMember, String.toList_append, List.append_assoc]
  rw [dropLayout_quoted, colon, value]
  rfl

/-- At every level, the layout is all that the indented text has in addition to the compact one. -/
theorem dropLayout_prettyAt (j : Json) (level : Nat) (r : List Char) :
    dropLayout .outside ((j.prettyAt level).toList ++ r) =
      j.compact.toList ++ dropLayout .outside r := by
  induction j generalizing level r with
  | text s => exact dropLayout_quoted s r
  | int n =>
    apply dropLayout_plain
    rw [List.all_eq_true]
    exact fun c mem => isPlain_of_isNumeral (isNumeral_of_mem_toString c mem)
  | bool b =>
    have plain : (bool b).compact.toList.all isPlain = true := by cases b <;> decide
    exact dropLayout_plain plain r
  | array items ih =>
    rw [prettyAt_array, compact_array]
    exact dropLayout_bracketed (by decide) (by decide) level
      (fun item mem => ih item mem (level + 1)) r
  | object members ih =>
    rw [prettyAt_object, compact_object]
    exact dropLayout_bracketed (by decide) (by decide) level
      (fun m mem => dropLayout_prettyMember (ih m mem (level + 1))) r

theorem withoutLayout_pretty (j : Json) : withoutLayout j.pretty = j.compact := by
  have all := dropLayout_prettyAt j 0 []
  rw [List.append_nil] at all
  rw [withoutLayout, pretty, all, dropLayout, List.append_nil, String.ofList_toList]

theorem pretty_injective {a b : Json} (same : a.pretty = b.pretty) : a = b := by
  apply compact_injective
  rw [← withoutLayout_pretty, ← withoutLayout_pretty, same]

end MonkeySyntax.Json
