import MonkeySyntax.Proofs.Datum

/-!
# Literals and indentation

* `Datum.literals` — the string literals in a text.
* `Datum.literals_text` — with any layout, the literals in the text of a datum are its texts in quotes.
* `Datum.indentedAt_succ` — a level further in, the text of a datum is the same text, indented line by
  line.
-/

namespace MonkeySyntax.Datum

open Json (Place)

/-! ## String literals -/

mutual

/-- The texts in a datum, in order. -/
def texts : Datum → List String
  | text s => [s]
  | int _ | bool _ | tag _ => []
  | wrapped _ content => content.texts
  | variant _ fields => fieldTexts fields
  | record _ fields => fieldTexts fields
  | list items => itemTexts items

/-- The texts in the items. -/
def itemTexts : List Datum → List String
  | [] => []
  | item :: items => item.texts ++ itemTexts items

/-- The texts in the fields. -/
def fieldTexts : List (String × Datum) → List String
  | [] => []
  | (_, value) :: fields => value.texts ++ fieldTexts fields

end

theorem itemTexts_eq (items : List Datum) : itemTexts items = items.flatMap texts := by
  induction items with
  | nil => rfl
  | cons item items ih => rw [itemTexts, ih, List.flatMap_cons]

theorem fieldTexts_eq (fields : List (String × Datum)) :
    fieldTexts fields = fields.flatMap fun f => f.2.texts := by
  induction fields with
  | nil => rfl
  | cons f fields ih => rw [fieldTexts, ih, List.flatMap_cons]

/-- The string literals in a text, where `seen` has been read of the one that it starts in. -/
def literalsFrom (seen : List Char) : Place → List Char → List String
  | _, [] => []
  | .outside, c :: cs =>
    if c = '"' then literalsFrom [c] .inside cs else literalsFrom [] .outside cs
  | .inside, c :: cs =>
    if c = '"' then String.ofList (seen ++ [c]) :: literalsFrom [] .outside cs
    else literalsFrom (seen ++ [c]) (if c = '\\' then .escaped else .inside) cs
  | .escaped, c :: cs => literalsFrom (seen ++ [c]) .inside cs

/-- The string literals in a text, from quote to quote. -/
def literals (text : String) : List String := literalsFrom [] .outside text.toList

/-- Outside a literal, these literals are read in `w`, and none is open behind it. -/
def Shows (w : List Char) (shown : List String) : Prop :=
  ∀ r, literalsFrom [] .outside (w ++ r) = shown ++ literalsFrom [] .outside r

theorem Shows.literals_eq {s : String} {shown : List String} (h : Shows s.toList shown) :
    literals s = shown := by
  have all := h []
  rw [List.append_nil] at all
  rw [literals, all, literalsFrom, List.append_nil]

theorem shows_nil : Shows [] [] := fun _ => rfl

theorem Shows.append {w w' : List Char} {shown shown' : List String} (h : Shows w shown)
    (h' : Shows w' shown') : Shows (w ++ w') (shown ++ shown') := by
  intro r
  rw [List.append_assoc, h, h', List.append_assoc]

theorem shows_plain {w : List Char} (h : '"' ∉ w) : Shows w [] := by
  intro r
  induction w with
  | nil => rfl
  | cons c w ih =>
    rw [List.mem_cons, not_or] at h
    rw [List.cons_append, literalsFrom, if_neg (Ne.symm h.1), ih h.2]

theorem literalsFrom_plain {w : List Char} (h : ∀ c ∈ w, c ≠ '"' ∧ c ≠ '\\') (seen r : List Char) :
    literalsFrom seen .inside (w ++ r) = literalsFrom (seen ++ w) .inside r := by
  induction w generalizing seen with
  | nil => rw [List.nil_append, List.append_nil]
  | cons c w ih =>
    rw [List.forall_mem_cons] at h
    rw [List.cons_append, literalsFrom, if_neg h.1.1, if_neg h.1.2, ih h.2, List.append_assoc]
    rfl

theorem Escapes.literalsFrom {c : Char} {w : List Char} (h : Escapes c w) (seen r : List Char) :
    Datum.literalsFrom seen .inside (w ++ r) = Datum.literalsFrom (seen ++ w) .inside r := by
  cases h with
  | itself quote backslash _ => exact literalsFrom_plain (by simp [quote, backslash]) seen r
  | short letter _ _ _ =>
    show Datum.literalsFrom (seen ++ ['\\'] ++ [letter]) .inside r = _
    rw [List.append_assoc]
    rfl
  | code digits alphanumeric _ =>
    have plain : ∀ d ∈ digits ++ ['\x7d'], d ≠ '"' ∧ d ≠ '\\' := by
      intro d mem
      rcases List.mem_append.mp mem with digit | brace
      · have inNumber := alphanumeric d digit
        constructor <;> rintro rfl <;> exact absurd inNumber (by decide)
      · rw [List.mem_singleton.mp brace]
        decide
    show Datum.literalsFrom (seen ++ ['\\'] ++ ['u'] ++ ['\x7b']) .inside (digits ++ ['\x7d'] ++ r) = _
    rw [literalsFrom_plain plain]
    simp

/-- A text in quotes is one literal, whatever is in the text. -/
theorem shows_quoted (s : String) : Shows (quoted s).toList [quoted s] := by
  have inside (cs seen r : List Char) :
      literalsFrom seen .inside (cs.flatMap (fun c => (escape c).toList) ++ r) =
        literalsFrom (seen ++ cs.flatMap fun c => (escape c).toList) .inside r := by
    induction cs generalizing seen with
    | nil => rw [List.flatMap_nil, List.nil_append, List.append_nil]
    | cons c cs ih =>
      rw [List.flatMap_cons, List.append_assoc, (escapes_escape c).literalsFrom, ih,
        List.append_assoc]
  intro r
  have whole := toList_quotedWith escape s
  have literal : String.ofList ('"' :: (s.toList.flatMap (fun c => (escape c).toList) ++ ['"'])) =
      quoted s := by
    rw [← whole, String.ofList_toList]
    rfl
  rw [quoted, whole, List.cons_append, List.append_assoc]
  show literalsFrom ['"'] .inside _ = _
  rw [inside]
  show String.ofList (_ ++ ['"']) :: literalsFrom [] .outside r = _
  rw [List.append_assoc, List.singleton_append, literal]
  rfl

section

variable {layout : Layout} {text : Nat → Datum → String}

/-- Brackets and separators are no part of a literal. -/
theorem shows_enclosed {α : Type} {f : α → String} {shown : α → List String} {x : α} {xs : List α}
    (layout : Layout) (b : Bracket) (n : Nat) (each : ∀ y ∈ x :: xs, Shows (f y).toList (shown y)) :
    Shows (layout.enclosed b n ((x :: xs).map f)).toList ((x :: xs).flatMap shown) := by
  have noQuote := layout.noQuote b n
  simp only [String.toList_append, List.mem_append, not_or] at noQuote
  obtain ⟨⟨opening, separator⟩, closing⟩ := noQuote
  have others : ∀ ys : List α, (∀ y ∈ ys, Shows (f y).toList (shown y)) →
      Shows (ys.flatMap fun y => (layout.separator n).toList ++ (f y).toList) (ys.flatMap shown) := by
    intro ys each
    induction ys with
    | nil => exact shows_nil
    | cons y ys ih =>
      rw [List.forall_mem_cons] at each
      rw [List.flatMap_cons, List.flatMap_cons]
      exact ((shows_plain separator).append each.1).append (ih each.2)
  rw [List.forall_mem_cons] at each
  have inner := each.1.append (others xs each.2)
  have whole := ((shows_plain opening).append inner).append (shows_plain closing)
  rw [Layout.enclosed, String.toList_append, String.toList_append, List.map_cons,
    toList_intercalate_cons, List.flatMap_map, List.flatMap_cons]
  simpa using whole

theorem shows_fields {title : String} {f : String × Datum} {fields : List (String × Datum)} {n : Nat}
    (word : IsTitle title) (labels : ∀ g ∈ f :: fields, IsTitle g.1)
    (each : ∀ g ∈ f :: fields, Shows (text (n + 1) g.2).toList (g.2.texts.map quoted)) :
    Shows (title ++ layout.enclosed .curly n
        ((f :: fields).map fun g => g.1 ++ ": " ++ text (n + 1) g.2)).toList
      ((fieldTexts (f :: fields)).map quoted) := by
  have parts : ∀ g ∈ f :: fields,
      Shows (g.1 ++ ": " ++ text (n + 1) g.2).toList (g.2.texts.map quoted) := by
    intro g mem
    rw [String.toList_append, String.toList_append]
    have label : '"' ∉ g.1.toList ++ ": ".toList := by
      simp [(labels g mem).not_mem]
    exact (shows_plain label).append (each g mem)
  rw [fieldTexts_eq, String.toList_append, List.map_flatMap]
  exact (shows_plain (word.not_mem rfl)).append (shows_enclosed layout .curly n parts)

/-- With any layout, the literals in the text of a datum are its texts in quotes. -/
theorem shows_text (isText : layout.IsText text) {d : Datum} (spelled : d.Spelled) (n : Nat) :
    Shows (text n d).toList (d.texts.map quoted) := by
  induction spelled generalizing n with
  | text s =>
    rw [isText.quoted]
    exact shows_quoted s
  | int i =>
    rw [isText.number]
    exact shows_plain fun mem => absurd (isNumeral_of_mem_toString _ mem) (by decide)
  | bool b =>
    rw [isText.truth]
    exact shows_plain (by cases b <;> decide)
  | tag word =>
    rw [isText.tag]
    exact shows_plain (word.not_mem rfl)
  | @wrapped title content word _ ih =>
    have parts : ∀ c ∈ [content], Shows (text (n + 1) c).toList (c.texts.map quoted) := by
      simpa using ih (n + 1)
    have whole := (shows_plain (word.not_mem rfl)).append (shows_enclosed layout .round n parts)
    rw [isText.wrapped, String.toList_append]
    simpa [texts] using whole
  | variant word nonempty labels _ ih =>
    obtain ⟨f, fields, rfl⟩ := List.exists_cons_of_ne_nil nonempty
    rw [isText.variant, texts]
    exact shows_fields word labels fun g mem => ih g mem (n + 1)
  | record word nonempty labels _ ih =>
    obtain ⟨f, fields, rfl⟩ := List.exists_cons_of_ne_nil nonempty
    rw [isText.record, texts]
    exact shows_fields word labels fun g mem => ih g mem (n + 1)
  | @list items _ ih =>
    rw [texts, itemTexts_eq, List.map_flatMap]
    cases items with
    | nil =>
      rw [isText.nothing]
      exact shows_plain (by decide)
    | cons item items =>
      rw [isText.list]
      exact shows_enclosed layout .square n fun i mem => ih i mem (n + 1)

theorem literals_text (isText : layout.IsText text) {d : Datum} (spelled : d.Spelled) (n : Nat) :
    literals (text n d) = d.texts.map quoted :=
  (shows_text isText spelled n).literals_eq

end

/-! ## Indentation -/

/-- The text one level further in: four more spaces behind each line break. -/
def indentLines (text : String) : String :=
  .ofList (text.toList.flatMap fun c => if c = '\n' then "\n    ".toList else [c])

theorem indentLines_append (s t : String) : indentLines (s ++ t) = indentLines s ++ indentLines t := by
  simp [indentLines]

theorem indentLines_eq_self {s : String} (h : '\n' ∉ s.toList) : indentLines s = s := by
  have alone (cs : List Char) (h : '\n' ∉ cs) :
      (cs.flatMap fun c => if c = '\n' then "\n    ".toList else [c]) = cs := by
    induction cs with
    | nil => rfl
    | cons c cs ih =>
      rw [List.mem_cons, not_or] at h
      rw [List.flatMap_cons, if_neg (Ne.symm h.1), ih h.2, List.singleton_append]
  rw [indentLines, alone _ h, String.ofList_toList]

theorem indentLines_newline (n : Nat) : indentLines (newline n) = newline (n + 1) := by
  have spaces : '\n' ∉ (String.ofList (List.replicate (4 * n) ' ')).toList := by simp
  have first : indentLines "\n" = "\n" ++ "    " := rfl
  rw [newline, indentLines_append, indentLines_eq_self spaces, first, newline, Nat.mul_add,
    Nat.add_comm, ← List.replicate_append_replicate, String.ofList_append, String.append_assoc]
  rfl

theorem indentLines_intercalate (separator : String) (parts : List String) :
    indentLines (separator.intercalate parts) =
      (indentLines separator).intercalate (parts.map indentLines) := by
  induction parts with
  | nil => rfl
  | cons part parts ih =>
    cases parts with
    | nil => simp
    | cons next parts =>
      rw [String.intercalate_cons_cons, indentLines_append, indentLines_append, ih]
      simp only [List.map_cons, String.intercalate_cons_cons]

theorem enclosed_succ (b : Bracket) (n : Nat) (parts : List String) :
    Layout.indented.enclosed b (n + 1) (parts.map indentLines) =
      indentLines (Layout.indented.enclosed b n parts) := by
  have comma : indentLines "," = "," := rfl
  show b.left ++ newline (n + 1 + 1) ++
      ("," ++ newline (n + 1 + 1)).intercalate (parts.map indentLines) ++
      ("," ++ newline (n + 1) ++ b.right) = _
  show _ = indentLines (b.left ++ newline (n + 1) ++ ("," ++ newline (n + 1)).intercalate parts ++
    ("," ++ newline n ++ b.right))
  simp only [indentLines_append, indentLines_intercalate, indentLines_newline, comma,
    indentLines_eq_self b.noLineBreak_left, indentLines_eq_self b.noLineBreak_right]

/-- The parts of a record a level further in. -/
theorem enclosed_fields_succ {fields : List (String × Datum)} {n : Nat}
    (labels : ∀ f ∈ fields, IsTitle f.1)
    (each : ∀ f ∈ fields, f.2.indentedAt (n + 1 + 1) = indentLines (f.2.indentedAt (n + 1))) :
    Layout.indented.enclosed .curly (n + 1)
        (fields.map fun f => f.1 ++ ": " ++ f.2.indentedAt (n + 1 + 1)) =
      indentLines (Layout.indented.enclosed .curly n
        (fields.map fun f => f.1 ++ ": " ++ f.2.indentedAt (n + 1))) := by
  have colon : indentLines ": " = ": " := rfl
  rw [← enclosed_succ, List.map_map]
  congr 1
  refine List.map_congr_left fun f mem => ?_
  show _ = indentLines (f.1 ++ ": " ++ f.2.indentedAt (n + 1))
  rw [indentLines_append, indentLines_append, indentLines_eq_self ((labels f mem).not_mem rfl), colon,
    each f mem]

/-- A level further in, the text of a datum is the same text, indented line by line. -/
theorem indentedAt_succ {d : Datum} (spelled : d.Spelled) (n : Nat) :
    d.indentedAt (n + 1) = indentLines (d.indentedAt n) := by
  have isText := isText_indentedAt
  induction spelled generalizing n with
  | text s =>
    rw [isText.quoted, isText.quoted, indentLines_eq_self (noLineBreak_quoted s)]
  | int i =>
    rw [isText.number, isText.number, indentLines_eq_self]
    exact fun mem => absurd (isNumeral_of_mem_toString _ mem) (by decide)
  | bool b =>
    rw [isText.truth, isText.truth, indentLines_eq_self (by cases b <;> decide)]
  | tag word => rw [isText.tag, isText.tag, indentLines_eq_self (word.not_mem rfl)]
  | wrapped word _ ih =>
    rw [isText.wrapped, isText.wrapped, indentLines_append, indentLines_eq_self (word.not_mem rfl),
      ← enclosed_succ, ih]
    rfl
  | variant word nonempty labels _ ih =>
    obtain ⟨f, fields, rfl⟩ := List.exists_cons_of_ne_nil nonempty
    rw [isText.variant, isText.variant, indentLines_append, indentLines_eq_self (word.not_mem rfl),
      enclosed_fields_succ labels fun g mem => ih g mem (n + 1)]
  | record word nonempty labels _ ih =>
    obtain ⟨f, fields, rfl⟩ := List.exists_cons_of_ne_nil nonempty
    rw [isText.record, isText.record, indentLines_append, indentLines_eq_self (word.not_mem rfl),
      enclosed_fields_succ labels fun g mem => ih g mem (n + 1)]
  | @list items _ ih =>
    cases items with
    | nil => rw [isText.nothing, isText.nothing]; rfl
    | cons item items =>
      rw [isText.list, isText.list, ← enclosed_succ, List.map_map]
      congr 1
      exact List.map_congr_left fun i mem => ih i mem (n + 1)

end MonkeySyntax.Datum
