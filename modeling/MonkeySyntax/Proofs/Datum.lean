import MonkeySyntax.Datum
import MonkeySyntax.Proofs.Json

/-!
# Data in words

* `Datum.quoted_inj` — a text in quotes is told from every other one, and no line break is written in it.
* `Datum.Layout` — how the parts of a datum are set apart. The text on one line and the indented text
  differ in nothing else (`isText_oneLine`, `isText_indentedAt`).
* `Datum.Told` — two data are told from one another by their texts, whatever stands behind them. With any
  layout, the names that they begin with tell them apart (`told_of_title_ne`), and data with the same
  name are told apart by their parts (`told_wrapped`, `told_record`, `told_variant`, `told_list`).
-/

namespace MonkeySyntax.Datum

open Json (Place hexValue)

/-! ## Texts in quotes -/

/-- The number that hexadecimal digits denote. -/
def hexNumber (digits : List Char) : Nat := digits.foldl (fun n c => 16 * n + hexValue c) 0

/-- What a character behind a backslash stands for. -/
def unescaped (c : Char) : Char :=
  match c with
  | '0' => '\x00'
  | 't' => '\t'
  | 'n' => '\n'
  | 'r' => '\r'
  | c => c

/-- What may stand for a character in quotes: the character itself, a backslash with one character, or
one with the code of the character in braces. -/
inductive Escapes (c : Char) : List Char → Prop
  | itself (quote : c ≠ '"') (backslash : c ≠ '\\') (lineBreak : c ≠ '\n') : Escapes c [c]
  | short (letter : Char) (notCode : letter ≠ 'u') (lineBreak : letter ≠ '\n')
    (stands : unescaped letter = c) : Escapes c ['\\', letter]
  | code (digits : List Char) (alphanumeric : ∀ d ∈ digits, d.isAlphanum = true)
    (stands : Char.ofNat (hexNumber digits) = c) :
    Escapes c ('\\' :: 'u' :: '\x7b' :: (digits ++ ['\x7d']))

theorem toList_digits : ∀ n, n < 0xae →
    (Hex.digits n).toList.all Char.isAlphanum = true ∧ hexNumber (Hex.digits n).toList = n := by
  decide +kernel

theorem toNat_lt_of_isHidden {c : Char} (h : isHidden c = true) : c.toNat < 0xae := by
  simp only [isHidden, Bool.or_eq_true, Bool.and_eq_true, decide_eq_true_eq] at h
  omega

theorem escapes_escape (c : Char) : Escapes c (escape c).toList := by
  unfold escape
  split
  · exact .short '"' (by decide) (by decide) (by subst c; rfl)
  split
  · exact .short '\\' (by decide) (by decide) (by subst c; rfl)
  split
  · exact .short '0' (by decide) (by decide) (by subst c; rfl)
  split
  · exact .short 't' (by decide) (by decide) (by subst c; rfl)
  split
  · exact .short 'n' (by decide) (by decide) (by subst c; rfl)
  split
  · exact .short 'r' (by decide) (by decide) (by subst c; rfl)
  split
  · rename_i hidden
    obtain ⟨alphanumeric, number⟩ := toList_digits _ (toNat_lt_of_isHidden hidden)
    have whole : ("\\u\x7b" ++ Hex.digits c.toNat ++ "\x7d").toList =
        '\\' :: 'u' :: '\x7b' :: ((Hex.digits c.toNat).toList ++ ['\x7d']) := by simp
    rw [whole]
    exact .code _ (List.all_eq_true.mp alphanumeric) (by rw [number, Char.ofNat_toNat])
  · rename_i quote backslash _ _ lineBreak _ _
    rw [String.toList_singleton]
    exact .itself quote backslash lineBreak

/-- The first character of what stands in quotes, and what is left. -/
def readEscaped : List Char → Option (Char × List Char)
  | [] => none
  | '\\' :: 'u' :: _ :: cs =>
    some (Char.ofNat (hexNumber (cs.takeWhile Char.isAlphanum)), (cs.dropWhile Char.isAlphanum).tail)
  | '\\' :: c :: cs => some (unescaped c, cs)
  | c :: cs => if c = '"' then none else some (c, cs)

theorem Escapes.read {c : Char} {w : List Char} (h : Escapes c w) (r : List Char) :
    readEscaped (w ++ r) = some (c, r) := by
  cases h with
  | itself quote backslash _ =>
    rw [List.singleton_append, readEscaped]
    · rw [if_neg quote]
    · rintro _ _ rfl
      contradiction
    · rintro _ _ rfl
      contradiction
  | short letter notCode _ stands =>
    rw [List.cons_append, List.singleton_append, readEscaped, stands]
    rintro _ _ rfl
    contradiction
  | code digits alphanumeric stands =>
    have number : (digits ++ '\x7d' :: r).takeWhile Char.isAlphanum = digits := by
      rw [List.takeWhile_append_of_pos alphanumeric]
      exact List.append_nil digits
    have behind : (digits ++ '\x7d' :: r).dropWhile Char.isAlphanum = '\x7d' :: r :=
      List.dropWhile_append_of_pos alphanumeric
    have whole : '\\' :: 'u' :: '\x7b' :: (digits ++ ['\x7d']) ++ r =
        '\\' :: 'u' :: '\x7b' :: (digits ++ '\x7d' :: r) := by simp
    rw [whole, readEscaped, number, behind, stands]
    rfl

theorem escapeCode : EscapeCode escape :=
  .of_read (fun c => (escapes_escape c).read) fun _ => rfl

/-- A text in quotes is told from every other one, whatever follows. -/
theorem quoted_inj {s t : String} {r r' : List Char}
    (same : (quoted s).toList ++ r = (quoted t).toList ++ r') : s = t ∧ r = r' :=
  escapeCode.quotedWith_inj same

theorem Escapes.noLineBreak {c : Char} {w : List Char} (h : Escapes c w) : '\n' ∉ w := by
  cases h with
  | itself _ _ lineBreak => simpa using lineBreak.symm
  | short letter _ lineBreak _ => simpa using lineBreak.symm
  | code digits alphanumeric _ =>
    have inside : '\n' ∉ digits := fun mem => absurd (alphanumeric _ mem) (by decide)
    simpa using inside

/-- Line breaks in a text do not break the line that it is written on. -/
theorem noLineBreak_quoted (s : String) : '\n' ∉ (quoted s).toList := by
  have inside (c : Char) : '\n' ∉ (escape c).toList := (escapes_escape c).noLineBreak
  simp [quoted, toList_quotedWith, inside]

/-! ## Names -/

/-- Names of types, alternatives and fields are made of letters. -/
def IsTitle (s : String) : Prop := s.toList.all Char.isAlpha = true

instance : DecidablePred IsTitle := fun _ => inferInstanceAs (Decidable (_ = _))

theorem IsTitle.not_mem {s : String} (h : IsTitle s) {c : Char} (noLetter : c.isAlpha = false) :
    c ∉ s.toList := by
  intro mem
  rw [IsTitle, List.all_eq_true] at h
  rw [h c mem] at noLetter
  cases noLetter

/-- All names in the datum are words, and its records have fields. -/
inductive Spelled : Datum → Prop
  | text (s : String) : Spelled (.text s)
  | int (n : Int) : Spelled (.int n)
  | bool (b : Bool) : Spelled (.bool b)
  | tag {title : String} : IsTitle title → Spelled (.tag title)
  | wrapped {title : String} {content : Datum} :
    IsTitle title → Spelled content → Spelled (.wrapped title content)
  | variant {title : String} {fields : List (String × Datum)} : IsTitle title → fields ≠ [] →
    (∀ f ∈ fields, IsTitle f.1) → (∀ f ∈ fields, Spelled f.2) → Spelled (.variant title fields)
  | record {title : String} {fields : List (String × Datum)} : IsTitle title → fields ≠ [] →
    (∀ f ∈ fields, IsTitle f.1) → (∀ f ∈ fields, Spelled f.2) → Spelled (.record title fields)
  | list {items : List Datum} : (∀ item ∈ items, Spelled item) → Spelled (.list items)

/-- The name that the datum begins with. -/
def title? : Datum → Option String
  | tag title => some title
  | wrapped title _ => some title
  | variant title _ => some title
  | record title _ => some title
  | _ => none

/-! ## Layouts -/

/-- The characters begin with a mark, that is, with one that stands neither in a word nor in a number. -/
def AtMark (cs : List Char) : Prop :=
  ∃ c rest, cs = c :: rest ∧ c.isAlpha = false ∧ isNumeral c = false

theorem AtMark.append {w : List Char} (h : AtMark w) (r : List Char) : AtMark (w ++ r) := by
  obtain ⟨c, rest, rfl, letter, numeral⟩ := h
  exact ⟨c, rest ++ r, rfl, letter, numeral⟩

theorem AtMark.endsNumber {r : List Char} (h : AtMark r) : EndsNumber r := by
  obtain ⟨c, rest, rfl, -, numeral⟩ := h
  exact .cons numeral _

/-- A word is the longest run of letters. -/
theorem AtMark.takeWhile {r : List Char} (h : AtMark r) {s : String} (word : IsTitle s) :
    (s.toList ++ r).takeWhile Char.isAlpha = s.toList := by
  obtain ⟨c, rest, rfl, letter, -⟩ := h
  rw [List.takeWhile_append_of_pos (List.all_eq_true.mp word),
    List.takeWhile_cons_of_neg (by simp [letter]), List.append_nil]

/-- A word in front of something else is told from every other one. -/
theorem IsTitle.inj {s t : String} (word : IsTitle s) (word' : IsTitle t) {r r' : List Char}
    (mark : AtMark r) (mark' : AtMark r') (same : s.toList ++ r = t.toList ++ r') :
    s = t ∧ r = r' := by
  have letters := congrArg (List.takeWhile Char.isAlpha) same
  rw [mark.takeWhile word, mark'.takeWhile word', String.toList_inj] at letters
  rw [letters] at same
  exact ⟨letters, List.append_cancel_left same⟩

/-- What encloses the parts of a datum. -/
inductive Bracket where
  | round
  | square
  | curly

namespace Bracket

/-- What is in front of the parts, behind the name. -/
def left : Bracket → String
  | round => "("
  | square => "["
  | curly => " \x7b"

/-- What is behind the parts. -/
def right : Bracket → String
  | round => ")"
  | square => "]"
  | curly => "\x7d"

/-- What sets brackets apart from what they enclose on the same line. -/
def padding : Bracket → String
  | curly => " "
  | _ => ""

theorem noLineBreak_left (b : Bracket) : '\n' ∉ b.left.toList := by
  cases b <;> decide

theorem noLineBreak_right (b : Bracket) : '\n' ∉ b.right.toList := by
  cases b <;> decide

end Bracket

/-- How the parts of a datum are set apart, depending on the level that it stands on. -/
structure Layout where
  /-- In front of the first part, with the bracket. -/
  opening : Bracket → Nat → String
  /-- Between two parts. -/
  separator : Nat → String
  /-- Behind the last part, with the bracket. -/
  closing : Bracket → Nat → String
  opening_atMark : ∀ b n, AtMark (opening b n).toList
  separator_atMark : ∀ n, AtMark (separator n).toList
  closing_atMark : ∀ b n, AtMark (closing b n).toList
  /-- A list with a part is told from an empty one. -/
  filled : ∀ n c r r', c.isAlpha = true → (opening .square n).toList ++ c :: r ≠ "[]".toList ++ r'
  /-- The end of a list is told from a separator. -/
  apart : ∀ n r r', (separator n).toList ++ r ≠ (closing .square n).toList ++ r'
  noQuote : ∀ b n, '"' ∉ (opening b n ++ separator n ++ closing b n).toList

/-- Parts in brackets. -/
def Layout.enclosed (layout : Layout) (b : Bracket) (n : Nat) (parts : List String) : String :=
  layout.opening b n ++ (layout.separator n).intercalate parts ++ layout.closing b n

/-- At every level, the text of a datum has the layout. Nothing is said of records without fields. -/
structure Layout.IsText (layout : Layout) (text : Nat → Datum → String) : Prop where
  quoted : ∀ n s, text n (.text s) = quoted s
  number : ∀ n i, text n (.int i) = toString i
  truth : ∀ n b, text n (.bool b) = if b then "true" else "false"
  tag : ∀ n title, text n (.tag title) = title
  wrapped : ∀ n title content, text n (.wrapped title content) =
    title ++ layout.enclosed .round n [text (n + 1) content]
  variant : ∀ n title f fields, text n (.variant title (f :: fields)) =
    title ++ layout.enclosed .curly n ((f :: fields).map fun f => f.1 ++ ": " ++ text (n + 1) f.2)
  record : ∀ n title f fields, text n (.record title (f :: fields)) =
    title ++ layout.enclosed .curly n ((f :: fields).map fun f => f.1 ++ ": " ++ text (n + 1) f.2)
  nothing : ∀ n, text n (.list []) = "[]"
  list : ∀ n item items, text n (.list (item :: items)) =
    layout.enclosed .square n ((item :: items).map (text (n + 1)))

/-- Everything on one line. -/
def Layout.oneLine : Layout where
  opening b _ := b.left ++ b.padding
  separator _ := ", "
  closing b _ := b.padding ++ b.right
  opening_atMark b _ := by cases b <;> exact ⟨_, _, rfl, by decide, by decide⟩
  separator_atMark _ := ⟨_, _, rfl, by decide, by decide⟩
  closing_atMark b _ := by cases b <;> exact ⟨_, _, rfl, by decide, by decide⟩
  filled _ c r r' letter same := by
    obtain rfl := (List.cons.inj (List.cons.inj same).2).1
    cases letter
  apart _ _ _ same := absurd (List.cons.inj same).1 (by decide)
  noQuote b _ := by cases b <;> decide

theorem enclosed_oneLine (b : Bracket) (n : Nat) (parts : List String) :
    Layout.oneLine.enclosed b n parts =
      b.left ++ b.padding ++ (", ".intercalate parts ++ (b.padding ++ b.right)) :=
  String.append_assoc

theorem isText_oneLine : Layout.oneLine.IsText fun _ => oneLine where
  quoted _ s := by rw [oneLine]
  number _ i := by rw [oneLine]
  truth _ b := by rw [oneLine]
  tag _ title := by rw [oneLine]
  wrapped _ title content := by
    rw [oneLine, enclosed_oneLine, String.append_assoc, String.append_assoc,
      String.intercalate_singleton]
    rfl
  variant _ title f fields := by
    rw [oneLine, oneLineFields_eq, enclosed_oneLine, String.append_assoc, String.append_assoc]
    rfl
  record _ title f fields := by
    rw [oneLine, oneLineFields_eq, enclosed_oneLine, String.append_assoc, String.append_assoc]
    rfl
  nothing _ := by rw [oneLine, oneLineItems]; rfl
  list _ item items := by rw [oneLine, oneLineItems_eq]; rfl

theorem toList_newline (n : Nat) : (newline n).toList = '\n' :: List.replicate (4 * n) ' ' := by
  simp [newline]

theorem newline_succ (n : Nat) : newline (n + 1) = newline n ++ "    " := by
  rw [← String.toList_inj, String.toList_append, toList_newline, toList_newline, Nat.mul_add,
    ← List.replicate_append_replicate]
  rfl

/-- One part a line. The last one has a comma behind it as well. -/
def Layout.indented : Layout where
  opening b n := b.left ++ newline (n + 1)
  separator n := "," ++ newline (n + 1)
  closing b n := "," ++ newline n ++ b.right
  opening_atMark b n := by
    cases b <;> exact ⟨_, _, String.toList_append, by decide, by decide⟩
  separator_atMark n := ⟨_, _, String.toList_append, by decide, by decide⟩
  closing_atMark b n :=
    ⟨_, _, by rw [String.toList_append, String.toList_append]; rfl, by decide, by decide⟩
  filled n c r r' _ same := by
    rw [String.toList_append, toList_newline] at same
    exact absurd (List.cons.inj (List.cons.inj same).2).1 (by decide)
  apart n r r' same := by
    -- the next item stands further in than the bracket
    simp only [newline_succ, String.toList_append, List.append_assoc,
      List.append_cancel_left_eq] at same
    exact absurd (List.cons.inj same).1 (by decide)
  noQuote b n := by cases b <;> simp [toList_newline, Bracket.left, Bracket.right]

theorem bracketed_cons (left right : String) (n : Nat) (part : String) (parts : List String) :
    bracketed left right n (part :: parts) =
      left ++ newline (n + 1) ++ ("," ++ newline (n + 1)).intercalate (part :: parts) ++
        ("," ++ newline n ++ right) := by
  have lines : String.join ((part :: parts).map fun part => newline (n + 1) ++ part ++ ",") =
      newline (n + 1) ++ ("," ++ newline (n + 1)).intercalate (part :: parts) ++ "," := by
    induction parts generalizing part with
    | nil => simp [String.join_cons]
    | cons next parts ih =>
      rw [List.map_cons, String.join_cons, ih, String.intercalate_cons_cons]
      simp only [String.append_assoc]
  rw [bracketed, lines]
  · simp only [String.append_assoc]
  · exact nofun

theorem isText_indentedAt : Layout.indented.IsText indentedAt where
  quoted n s := by rw [indentedAt]
  number n i := by rw [indentedAt]
  truth n b := by rw [indentedAt]
  tag n title := by rw [indentedAt]
  wrapped n title content := by rw [indentedAt, bracketed_cons]; rfl
  variant n title f fields := by
    rw [indentedAt, indentedFields_eq, List.reverse_nil, List.nil_append, List.map_cons,
      bracketed_cons]
    rfl
  record n title f fields := by
    rw [indentedAt, indentedFields_eq, List.reverse_nil, List.nil_append, List.map_cons,
      bracketed_cons]
    rfl
  nothing n := by rw [indentedAt, indentedItems]; rfl
  list n item items := by
    rw [indentedAt, indentedItems_eq, List.reverse_nil, List.nil_append, List.map_cons,
      bracketed_cons]
    rfl

/-! ## Telling data apart -/

section

variable {layout : Layout} {text : Nat → Datum → String} {n : Nat} {d d' : Datum} {P Q : Prop}

/-- On this level, whatever stands behind them, the texts of the two data are the same only if `P` holds,
and it is clear where they end. -/
def Told (text : Nat → Datum → String) (n : Nat) (d d' : Datum) (P : Prop) : Prop :=
  ∀ r r', AtMark r → AtMark r' → (text n d).toList ++ r = (text n d').toList ++ r' → P ∧ r = r'

theorem Told.imp (h : Told text n d d' P) (imp : P → Q) : Told text n d d' Q :=
  fun r r' mark mark' same => (h r r' mark mark' same).imp_left imp

/-- The fields behind the first one. -/
def Layout.others (layout : Layout) (text : Nat → Datum → String) (n : Nat)
    (fields : List (String × Datum)) : List Char :=
  fields.flatMap fun f =>
    (layout.separator n).toList ++ (f.1.toList ++ (": ".toList ++ (text (n + 1) f.2).toList))

/-- Whatever stands behind the closing bracket, these fields are told from those only if `P` holds. -/
def ToldFields (layout : Layout) (text : Nat → Datum → String) (n : Nat)
    (fields fields' : List (String × Datum)) (P : Prop) : Prop :=
  ∀ r r', layout.others text n fields ++ ((layout.closing .curly n).toList ++ r) =
    layout.others text n fields' ++ ((layout.closing .curly n).toList ++ r') → P ∧ r = r'

theorem atMark_others (fields : List (String × Datum)) (r : List Char) :
    AtMark (layout.others text n fields ++ ((layout.closing .curly n).toList ++ r)) := by
  cases fields with
  | nil => exact (layout.closing_atMark .curly n).append r
  | cons f fields =>
    rw [Layout.others, List.flatMap_cons, List.append_assoc, List.append_assoc]
    exact (layout.separator_atMark n).append _

theorem ToldFields.nil : ToldFields layout text n [] [] True :=
  fun _ _ same => ⟨trivial, List.append_cancel_left same⟩

theorem ToldFields.cons {fields fields' : List (String × Datum)} (label : String)
    (first : Told text (n + 1) d d' P) (later : ToldFields layout text n fields fields' Q) :
    ToldFields layout text n ((label, d) :: fields) ((label, d') :: fields') (P ∧ Q) := by
  intro r r' same
  simp only [Layout.others, List.flatMap_cons, List.append_assoc, List.append_cancel_left_eq] at same
  obtain ⟨holds, behind⟩ := first _ _ (atMark_others fields r) (atMark_others fields' r') same
  obtain ⟨holds', rest⟩ := later r r' behind
  exact ⟨⟨holds, holds'⟩, rest⟩

/-- What encloses the fields of a record does not depend on them. -/
theorem toList_enclosed_fields (title label : String) (fields : List (String × Datum))
    (r : List Char) :
    (title ++ layout.enclosed .curly n
        (((label, d) :: fields).map fun f => f.1 ++ ": " ++ text (n + 1) f.2)).toList ++ r =
      (title ++ layout.opening .curly n ++ label ++ ": ").toList ++ ((text (n + 1) d).toList ++
        (layout.others text n fields ++ ((layout.closing .curly n).toList ++ r))) := by
  simp only [Layout.enclosed, List.map_cons, String.toList_append, toList_intercalate_cons,
    List.flatMap_map, Layout.others, List.append_assoc]

theorem Told.enclosed {title label : String} {fields fields' : List (String × Datum)}
    (first : Told text (n + 1) d d' P) (later : ToldFields layout text n fields fields' Q)
    {r r' : List Char}
    (same : (title ++ layout.enclosed .curly n
        (((label, d) :: fields).map fun f => f.1 ++ ": " ++ text (n + 1) f.2)).toList ++ r =
      (title ++ layout.enclosed .curly n
        (((label, d') :: fields').map fun f => f.1 ++ ": " ++ text (n + 1) f.2)).toList ++ r') :
    (P ∧ Q) ∧ r = r' := by
  rw [toList_enclosed_fields, toList_enclosed_fields] at same
  obtain ⟨holds, behind⟩ := first _ _ (atMark_others fields r) (atMark_others fields' r')
    (List.append_cancel_left same)
  obtain ⟨holds', rest⟩ := later r r' behind
  exact ⟨⟨holds, holds'⟩, rest⟩

variable (isText : layout.IsText text)
include isText

theorem told_text (s t : String) : Told text n (.text s) (.text t) (s = t) := by
  intro r r' _ _ same
  rw [isText.quoted, isText.quoted] at same
  exact quoted_inj same

theorem told_int (i j : Int) : Told text n (.int i) (.int j) (i = j) := by
  intro r r' mark mark' same
  rw [isText.number, isText.number] at same
  exact readable_toString i j r r' mark.endsNumber mark'.endsNumber same

theorem told_bool (a b : Bool) : Told text n (.bool a) (.bool b) (a = b) := by
  intro r r' mark mark' same
  rw [isText.truth, isText.truth] at same
  have word (b : Bool) : IsTitle (if b then "true" else "false") := by cases b <;> decide
  obtain ⟨words, rest⟩ := (word a).inj (word b) mark mark' same
  refine ⟨?_, rest⟩
  cases a <;> cases b <;> first | rfl | exact absurd words (by decide)

theorem told_tag {title title' : String} (word : IsTitle title) (word' : IsTitle title') :
    Told text n (.tag title) (.tag title') (title = title') := by
  intro r r' mark mark' same
  rw [isText.tag, isText.tag] at same
  exact word.inj word' mark mark' same

theorem told_wrapped (title : String) (inner : Told text (n + 1) d d' P) :
    Told text n (.wrapped title d) (.wrapped title d') P := by
  intro r r' _ _ same
  have closing (r : List Char) : AtMark ((layout.closing .round n).toList ++ r) :=
    (layout.closing_atMark .round n).append r
  simp only [isText.wrapped, Layout.enclosed, String.intercalate_singleton, String.toList_append,
    List.append_assoc, List.append_cancel_left_eq] at same
  obtain ⟨holds, behind⟩ := inner _ _ (closing r) (closing r') same
  exact ⟨holds, List.append_cancel_left behind⟩

section

variable {fields fields' : List (String × Datum)}

theorem told_record (title label : String) (first : Told text (n + 1) d d' P)
    (later : ToldFields layout text n fields fields' Q) :
    Told text n (.record title ((label, d) :: fields)) (.record title ((label, d') :: fields'))
      (P ∧ Q) := by
  intro r r' _ _ same
  rw [isText.record, isText.record] at same
  exact first.enclosed later same

theorem told_variant (title label : String) (first : Told text (n + 1) d d' P)
    (later : ToldFields layout text n fields fields' Q) :
    Told text n (.variant title ((label, d) :: fields)) (.variant title ((label, d') :: fields'))
      (P ∧ Q) := by
  intro r r' _ _ same
  rw [isText.variant, isText.variant] at same
  exact first.enclosed later same

end

/-- The text of a datum with a name begins with this name, and the name ends there. -/
theorem exists_text_eq {title : String} (spelled : d.Spelled) (named : d.title? = some title)
    (n : Nat) : IsTitle title ∧ ∃ w, (∀ r, AtMark r → AtMark (w ++ r)) ∧
      (text n d).toList = title.toList ++ w := by
  have enclosed {d : Datum} {b : Bracket} {parts : List String} (word : IsTitle title)
      (whole : text n d = title ++ layout.enclosed b n parts) :
      IsTitle title ∧ ∃ w, (∀ r, AtMark r → AtMark (w ++ r)) ∧
        (text n d).toList = title.toList ++ w := by
    refine ⟨word, (layout.enclosed b n parts).toList, fun r _ => ?_, ?_⟩
    · rw [Layout.enclosed, String.append_assoc, String.toList_append, List.append_assoc]
      exact (layout.opening_atMark b n).append _
    · rw [whole, String.toList_append]
  cases spelled with
  | tag word =>
    cases named
    exact ⟨word, [], fun r mark => mark, by rw [isText.tag, List.append_nil]⟩
  | wrapped word _ =>
    cases named
    exact enclosed word (isText.wrapped n _ _)
  | variant word nonempty _ _ =>
    cases named
    obtain ⟨f, fields, rfl⟩ := List.exists_cons_of_ne_nil nonempty
    exact enclosed word (isText.variant n _ f fields)
  | record word nonempty _ _ =>
    cases named
    obtain ⟨f, fields, rfl⟩ := List.exists_cons_of_ne_nil nonempty
    exact enclosed word (isText.record n _ f fields)
  | _ => cases named

/-- The text of a datum with a name begins with a letter. -/
theorem exists_letter_of_title {title : String} (spelled : d.Spelled)
    (named : d.title? = some title) (nonempty : title ≠ "") (n : Nat) :
    ∃ c cs, c.isAlpha = true ∧ (text n d).toList = c :: cs := by
  obtain ⟨word, w, -, front⟩ := exists_text_eq isText spelled named n
  cases letters : title.toList with
  | nil => exact absurd (String.toList_eq_nil_iff.mp letters) nonempty
  | cons c cs =>
    rw [letters] at front
    exact ⟨c, cs ++ w, List.all_eq_true.mp word c (letters ▸ List.mem_cons_self), front⟩

/-- Data with different names are told apart by them. -/
theorem told_of_title_ne {title title' : String} (spelled : d.Spelled) (spelled' : d'.Spelled)
    (named : d.title? = some title) (named' : d'.title? = some title') (ne : title ≠ title') :
    Told text n d d' P := by
  intro r r' mark mark' same
  obtain ⟨word, w, behind, front⟩ := exists_text_eq isText spelled named n
  obtain ⟨word', w', behind', front'⟩ := exists_text_eq isText spelled' named' n
  rw [front, front', List.append_assoc, List.append_assoc] at same
  exact absurd (word.inj word' (behind r mark) (behind' r' mark') same).1 ne

/-- The items of a list are told from one another and from its end if each of them begins with a name. -/
theorem told_list {α : Type} {f : α → Datum} {xs ys : List α} (spelled : ∀ x, (f x).Spelled)
    (named : ∀ x, ∃ title, (f x).title? = some title ∧ title ≠ "")
    (each : ∀ x ∈ xs, ∀ y, Told text (n + 1) (f x) (f y) (x = y)) :
    Told text n (.list (xs.map f)) (.list (ys.map f)) (xs = ys) := by
  have letter (x : α) := (named x).elim fun _ name =>
    exists_letter_of_title isText (spelled x) name.1 name.2 (n + 1)
  have opens (x : α) (r r' : List Char) :
      (text (n + 1) (f x)).toList ++ r ≠ (layout.closing .square n).toList ++ r' := by
    obtain ⟨c, cs, alpha, front⟩ := letter x
    obtain ⟨c', cs', front', noLetter, -⟩ := layout.closing_atMark .square n
    rw [front, front']
    intro same
    rw [(List.cons.inj same).1, noLetter] at alpha
    cases alpha
  have filled (x : α) (zs : List α) (r r' : List Char) :
      (text n (.list ((x :: zs).map f))).toList ++ r ≠ "[]".toList ++ r' := by
    obtain ⟨c, cs, alpha, front⟩ := letter x
    rw [List.map_cons, isText.list, Layout.enclosed, List.map_cons, String.toList_append,
      String.toList_append, toList_intercalate_cons, front]
    simp only [List.append_assoc, List.cons_append]
    exact layout.filled n c _ r' alpha
  intro r r' _ _ same
  cases xs with
  | nil =>
    cases ys with
    | nil => exact ⟨rfl, List.append_cancel_left same⟩
    | cons y ys =>
      rw [List.map_nil, isText.nothing] at same
      exact absurd same.symm (filled y ys r' r)
  | cons x xs =>
    cases ys with
    | nil =>
      rw [List.map_nil, isText.nothing] at same
      exact absurd same (filled x xs r r')
    | cons y ys =>
      simp only [List.map_cons, isText.list, Layout.enclosed, String.toList_append,
        List.append_assoc, List.append_cancel_left_eq] at same
      rw [← List.map_cons, ← List.map_cons, ← List.map_cons, ← List.map_cons, List.map_map,
        List.map_map] at same
      exact intercalate_inj_of_apart (layout.apart n) (layout.separator_atMark n).append
        (layout.closing_atMark .square n).append opens each same

end

end MonkeySyntax.Datum
