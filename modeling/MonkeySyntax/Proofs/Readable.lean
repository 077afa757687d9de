import Mathlib.Data.List.TakeWhile
import MonkeySyntax.Quoted

/-!
# Texts that can be read back

Values are written one behind the other. `Readable` says of a value that its text, wherever it stands,
is told from the text of every other value and from what follows it. Only a number needs something
behind it that ends it (`EndsNumber`).

* `readable_toString` — integers are readable.
* `EscapeCode`, `quotedWith_inj` — so are texts in quotes, if what stands for their characters is.
* `intercalate_inj` — and so are lists between brackets, if their items are.
-/

namespace MonkeySyntax

/-! ## Numbers -/

/-- Whether a character may stand in an integer. -/
def isNumeral (c : Char) : Bool := c.isDigit || c = '-'

/-- What follows does not go on a number. -/
def EndsNumber (cs : List Char) : Prop := ∀ c ∈ cs.head?, isNumeral c = false

theorem EndsNumber.nil : EndsNumber [] := by
  rintro c ⟨⟩

theorem EndsNumber.cons {c : Char} (h : isNumeral c = false) (cs : List Char) :
    EndsNumber (c :: cs) := by
  rintro d ⟨⟩
  exact h

/-- In front of everything that ends a number, the text of `a` is the text of `a` only, and it is clear
where it ends. -/
def Readable {α : Type} (text : α → String) (a : α) : Prop :=
  ∀ b r r', EndsNumber r → EndsNumber r' → (text a).toList ++ r = (text b).toList ++ r' →
    a = b ∧ r = r'

theorem isNumeral_of_mem_repr {n : Nat} : ∀ c ∈ n.repr.toList, isNumeral c = true := by
  intro c mem
  rw [Nat.repr_eq_ofList_toDigits, String.toList_ofList] at mem
  simp [isNumeral, Nat.isDigit_of_mem_toDigits (by decide) (by decide) mem]

theorem isNumeral_of_mem_toString {n : Int} : ∀ c ∈ (toString n).toList, isNumeral c = true := by
  rw [Int.toString_eq_repr, Int.repr_eq_if]
  split
  · exact isNumeral_of_mem_repr
  · rw [String.toList_append]
    intro c mem
    rcases List.mem_append.mp mem with sign | digit
    · rw [List.mem_singleton.mp sign]
      decide
    · exact isNumeral_of_mem_repr c digit

/-- The integer that a numeral stands for. -/
def ofNumeral : List Char → Int
  | '-' :: digits => -(Nat.ofDigitChars 10 digits 0 : Nat)
  | digits => (Nat.ofDigitChars 10 digits 0 : Nat)

theorem ofDigitChars_repr (n : Nat) : Nat.ofDigitChars 10 n.repr.toList 0 = n := by
  rw [Nat.repr_eq_ofList_toDigits, String.toList_ofList]
  exact Nat.ofDigitChars_toDigits (by decide) (by decide)

theorem ofNumeral_toString (n : Int) : ofNumeral (toString n).toList = n := by
  rw [Int.toString_eq_repr, Int.repr_eq_if]
  split
  · -- digits do not begin with a sign
    have digits : ofNumeral n.toNat.repr.toList = Nat.ofDigitChars 10 n.toNat.repr.toList 0 := by
      unfold ofNumeral
      split
      · rename_i ds sign
        have digit : '-' ∈ Nat.toDigits 10 n.toNat := by
          rw [Nat.repr_eq_ofList_toDigits, String.toList_ofList] at sign
          rw [sign]
          exact List.mem_cons_self
        exact absurd (Nat.isDigit_of_mem_toDigits (by decide) (by decide) digit) (by decide)
      · rfl
    rw [digits, ofDigitChars_repr]
    omega
  · rw [String.toList_append]
    show -((Nat.ofDigitChars 10 (-n).toNat.repr.toList 0 : Nat) : Int) = n
    rw [ofDigitChars_repr]
    omega

/-- A number is the longest run of characters that may stand in one. -/
theorem takeWhile_toString (n : Int) {r : List Char} (ends : EndsNumber r) :
    ((toString n).toList ++ r).takeWhile isNumeral = (toString n).toList := by
  have stops : r.takeWhile isNumeral = [] := by
    cases r with
    | nil => rfl
    | cons c cs => rw [List.takeWhile_cons_of_neg (by simp [ends c rfl])]
  rw [List.takeWhile_append_of_pos isNumeral_of_mem_toString, stops, List.append_nil]

theorem readable_toString (n : Int) : Readable (toString : Int → String) n := by
  intro m r r' ends ends' same
  have digits := congrArg (List.takeWhile isNumeral) same
  rw [takeWhile_toString n ends, takeWhile_toString m ends', String.toList_inj] at digits
  rw [digits] at same
  refine ⟨?_, List.append_cancel_left same⟩
  rw [← ofNumeral_toString n, digits, ofNumeral_toString]

/-! ## Texts in quotes -/

/-- What stands for a character inside quotes is told from what stands for another one, and from the
quotes behind the text. -/
structure EscapeCode (escape : Char → String) : Prop where
  inj : ∀ c d r r', (escape c).toList ++ r = (escape d).toList ++ r' → c = d ∧ r = r'
  notQuote : ∀ c r r', (escape c).toList ++ r ≠ '"' :: r'

/-- It is so if the characters can be read back one by one. -/
theorem EscapeCode.of_read {escape : Char → String} {read : List Char → Option (Char × List Char)}
    (reads : ∀ c r, read ((escape c).toList ++ r) = some (c, r))
    (quote : ∀ r, read ('"' :: r) = none) : EscapeCode escape where
  inj c d r r' same := by
    have both := congrArg read same
    rw [reads, reads] at both
    exact Prod.mk.inj (Option.some.inj both)
  notQuote c r r' same := by
    have both := congrArg read same
    rw [reads, quote] at both
    cases both

theorem toList_quotedWith (escape : Char → String) (s : String) :
    (quotedWith escape s).toList =
      '"' :: (s.toList.flatMap (fun c => (escape c).toList) ++ ['"']) := by
  simp [quotedWith, String.toList_join, List.flatMap_map]

theorem EscapeCode.flatMap_inj {escape : Char → String} (code : EscapeCode escape)
    {cs ds r r' : List Char}
    (same : cs.flatMap (fun c => (escape c).toList) ++ '"' :: r =
      ds.flatMap (fun c => (escape c).toList) ++ '"' :: r') : cs = ds ∧ r = r' := by
  induction cs generalizing ds with
  | nil =>
    cases ds with
    | nil => exact ⟨rfl, (List.cons.inj same).2⟩
    | cons d ds =>
      rw [List.flatMap_cons, List.append_assoc] at same
      exact absurd same.symm (code.notQuote d _ _)
  | cons c cs ih =>
    rw [List.flatMap_cons, List.append_assoc] at same
    cases ds with
    | nil => exact absurd same (code.notQuote c _ _)
    | cons d ds =>
      rw [List.flatMap_cons, List.append_assoc] at same
      obtain ⟨rfl, later⟩ := code.inj c d _ _ same
      obtain ⟨rfl, rest⟩ := ih later
      exact ⟨rfl, rest⟩

/-- Quotes end a text whatever follows. -/
theorem EscapeCode.quotedWith_inj {escape : Char → String} (code : EscapeCode escape) {s t : String}
    {r r' : List Char}
    (same : (quotedWith escape s).toList ++ r = (quotedWith escape t).toList ++ r') :
    s = t ∧ r = r' := by
  simp only [toList_quotedWith, List.cons_append, List.append_assoc, List.nil_append] at same
  obtain ⟨chars, rest⟩ := code.flatMap_inj (List.cons.inj same).2
  exact ⟨String.toList_inj.mp chars, rest⟩

/-! ## Lists -/

section

variable {α : Type} {text : α → String}

theorem toList_intercalate_cons (separator first : String) (others : List String) :
    (separator.intercalate (first :: others)).toList =
      first.toList ++ others.flatMap fun s => separator.toList ++ s.toList := by
  induction others generalizing first with
  | nil => simp
  | cons second others ih => simp [String.intercalate_cons_cons, ih]

/-- Behind the first item of a list, each item has a separator in front of it. What closes the list is
told from a separator, and both of them end the items. -/
theorem flatMap_inj_of_apart {Ends : List Char → Prop} {separator close : List Char}
    (apart : ∀ r r', separator ++ r ≠ close ++ r') (separator_ends : ∀ r, Ends (separator ++ r))
    (close_ends : ∀ r, Ends (close ++ r)) {xs ys : List α}
    (each : ∀ x ∈ xs, ∀ y r r', Ends r → Ends r' → (text x).toList ++ r = (text y).toList ++ r' →
      x = y ∧ r = r') {r r' : List Char}
    (same : xs.flatMap (fun x => separator ++ (text x).toList) ++ (close ++ r) =
      ys.flatMap (fun x => separator ++ (text x).toList) ++ (close ++ r')) : xs = ys ∧ r = r' := by
  have ends (zs : List α) (r : List Char) :
      Ends (zs.flatMap (fun x => separator ++ (text x).toList) ++ (close ++ r)) := by
    cases zs with
    | nil => exact close_ends r
    | cons z zs =>
      rw [List.flatMap_cons, List.append_assoc, List.append_assoc]
      exact separator_ends _
  induction xs generalizing ys with
  | nil =>
    cases ys with
    | nil => exact ⟨rfl, List.append_cancel_left same⟩
    | cons y ys =>
      rw [List.flatMap_cons, List.append_assoc, List.append_assoc] at same
      exact absurd same.symm (apart _ _)
  | cons x xs ih =>
    rw [List.flatMap_cons, List.append_assoc, List.append_assoc] at same
    cases ys with
    | nil => exact absurd same (apart _ _)
    | cons y ys =>
      rw [List.forall_mem_cons] at each
      rw [List.flatMap_cons, List.append_assoc, List.append_assoc] at same
      obtain ⟨rfl, later⟩ :=
        each.1 y _ _ (ends xs r) (ends ys r') (List.append_cancel_left same)
      obtain ⟨rfl, rest⟩ := ih each.2 later
      exact ⟨rfl, rest⟩

/-- The items of a list are told from one another and from what closes the list, with which none of
their texts begins. -/
theorem intercalate_inj_of_apart {Ends : List Char → Prop} {separator : String} {close : List Char}
    (apart : ∀ r r', separator.toList ++ r ≠ close ++ r')
    (separator_ends : ∀ r, Ends (separator.toList ++ r)) (close_ends : ∀ r, Ends (close ++ r))
    (opens : ∀ x r r', (text x).toList ++ r ≠ close ++ r') {xs ys : List α}
    (each : ∀ x ∈ xs, ∀ y r r', Ends r → Ends r' → (text x).toList ++ r = (text y).toList ++ r' →
      x = y ∧ r = r') {r r' : List Char}
    (same : (separator.intercalate (xs.map text)).toList ++ (close ++ r) =
      (separator.intercalate (ys.map text)).toList ++ (close ++ r')) : xs = ys ∧ r = r' := by
  cases xs with
  | nil =>
    cases ys with
    | nil => exact ⟨rfl, List.append_cancel_left same⟩
    | cons y ys =>
      rw [List.map_cons, toList_intercalate_cons, List.append_assoc] at same
      exact absurd same.symm (opens y _ _)
  | cons x xs =>
    rw [List.map_cons, toList_intercalate_cons, List.append_assoc, List.flatMap_map] at same
    cases ys with
    | nil => exact absurd same (opens x _ _)
    | cons y ys =>
      rw [List.map_cons, toList_intercalate_cons, List.append_assoc, List.flatMap_map] at same
      -- with a separator in front of the first items, too
      refine flatMap_inj_of_apart apart separator_ends close_ends each ?_
      rw [List.flatMap_cons, List.flatMap_cons]
      simp only [List.append_assoc, same]

/-- The items of a list in brackets, with commas between them. -/
theorem intercalate_inj {separator : String} {comma close : Char} {blank : List Char}
    (split : separator.toList = comma :: blank) (ne : comma ≠ close)
    (comma_ends : isNumeral comma = false) (close_ends : isNumeral close = false)
    (opens : ∀ x r r', (text x).toList ++ r ≠ close :: r') {xs ys : List α}
    (each : ∀ x ∈ xs, Readable text x) {r r' : List Char}
    (same : (separator.intercalate (xs.map text)).toList ++ close :: r =
      (separator.intercalate (ys.map text)).toList ++ close :: r') : xs = ys ∧ r = r' := by
  have apart (r r' : List Char) : separator.toList ++ r ≠ [close] ++ r' := by
    rw [split]
    exact fun same => ne (List.cons.inj same).1
  have separator_ends (r : List Char) : EndsNumber (separator.toList ++ r) := by
    rw [split]
    exact .cons comma_ends _
  exact intercalate_inj_of_apart apart separator_ends (fun r => .cons close_ends r) opens each same

end

end MonkeySyntax
