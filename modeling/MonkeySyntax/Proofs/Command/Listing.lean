import MonkeySyntax.Proofs.Command
import MonkeySyntax.Proofs.Lexer.Layout

/-!
# Reading a token listing back

`report_tokens_lines` — a run of `tokens` on a source that can be read always succeeds, with a line for
each token. Cut at its last space, a line falls into the label and the literal of its token: labels may
hold spaces, but no literal does, whatever bytes the source has. So two sources have the same listing
only if they have the same tokens.
-/

namespace MonkeySyntax

/-! ## Labels -/

/-- The kind with a given label, if there is one. -/
def Kind.ofLabel? (s : String) : Option Kind :=
  all.find? (·.label = s)

theorem Kind.ofLabel?_label (k : Kind) : ofLabel? k.label = some k := by
  cases k <;> decide

theorem Kind.noLineBreak_label (k : Kind) : '\n' ∉ k.label.toList := by
  cases k <;> decide

namespace Command

/-! ## Lines -/

/-- What stands in front of the last `c` and what stands behind it, if there is one. -/
def cutAtLast? (c : Char) : List Char → Option (List Char × List Char)
  | [] => none
  | d :: cs =>
    match cutAtLast? c cs with
    | some (front, behind) => some (d :: front, behind)
    | none => if d = c then some ([], cs) else none

/-- A line, cut at its last space. -/
def cutAtLastSpace? (line : String) : Option (String × String) :=
  (cutAtLast? ' ' line.toList).map fun parts => (String.ofList parts.1, String.ofList parts.2)

theorem cutAtLast?_eq_none {c : Char} {cs : List Char} (h : c ∉ cs) : cutAtLast? c cs = none := by
  induction cs with
  | nil => rfl
  | cons d cs ih =>
    rw [List.mem_cons, not_or] at h
    rw [cutAtLast?, ih h.2]
    exact if_neg (Ne.symm h.1)

theorem cutAtLast?_append {c : Char} {behind : List Char} (h : c ∉ behind) (front : List Char) :
    cutAtLast? c (front ++ c :: behind) = some (front, behind) := by
  induction front with
  | nil =>
    rw [List.nil_append, cutAtLast?, cutAtLast?_eq_none h]
    exact if_pos rfl
  | cons d front ih => rw [List.cons_append, cutAtLast?, ih]

theorem cutAtLastSpace?_append (front : String) {behind : String} (h : ' ' ∉ behind.toList) :
    cutAtLastSpace? (front ++ " " ++ behind) = some (front, behind) := by
  have whole : (front ++ " " ++ behind).toList = front.toList ++ ' ' :: behind.toList := by simp
  rw [cutAtLastSpace?, whole, cutAtLast?_append h, Option.map_some, String.ofList_toList,
    String.ofList_toList]

/-- What the listing shows of a token. -/
def tokenRow (t : Token) : String :=
  if t.kind = .eof then t.kind.label else t.kind.label ++ " " ++ t.literal

theorem tokenLine_eq (t : Token) : tokenLine t = tokenRow t ++ "\n" := by
  rw [tokenLine, tokenRow]
  split <;> rfl

theorem tokenListing_eq (text : String) :
    tokenListing text = String.join (((tokenize text).map tokenRow).map (· ++ "\n")) := by
  rw [tokenListing, List.map_map, funext tokenLine_eq]
  rfl

/-- The token that a row of the listing shows. A row without a space is the end of the input. -/
def readRow (row : String) : Token :=
  match cutAtLastSpace? row with
  | some (label, literal) => ⟨(Kind.ofLabel? label).getD .illegal, literal⟩
  | none => Token.eof

section

variable {t : Token}

theorem noLineBreak_tokenRow (h : t.Lexical) : '\n' ∉ (tokenRow t).toList := by
  rw [tokenRow]
  split
  · exact t.kind.noLineBreak_label
  · rename_i notEof
    have literal : '\n' ∉ t.literal.toList := fun inside =>
      Bool.noConfusion (isBlank_of_mem_literal h notEof inside)
    simp [t.kind.noLineBreak_label, literal]

/-- At its last space, the row of a token falls into its label and its literal. -/
theorem cutAtLastSpace?_tokenRow (h : t.Lexical) (notEof : t.kind ≠ .eof) :
    cutAtLastSpace? (tokenRow t) = some (t.kind.label, t.literal) := by
  rw [tokenRow, if_neg notEof]
  exact cutAtLastSpace?_append _ fun inside =>
    Bool.noConfusion (isBlank_of_mem_literal h notEof inside)

/-- There is no space in the row of the end of the input. -/
theorem cutAtLastSpace?_tokenRow_of_eof (eof : t.kind = .eof) :
    cutAtLastSpace? (tokenRow t) = none := by
  rw [tokenRow, if_pos eof, eof]
  rfl

theorem readRow_tokenRow (h : t.Lexical) : readRow (tokenRow t) = t := by
  rw [readRow]
  by_cases eof : t.kind = .eof
  · rw [cutAtLastSpace?_tokenRow_of_eof eof, h.eq_token eof rfl]
    rfl
  · rw [cutAtLastSpace?_tokenRow h eof]
    show Token.mk ((Kind.ofLabel? t.kind.label).getD .illegal) t.literal = t
    rw [Kind.ofLabel?_label]
    rfl

end

/-! ## Listings -/

/-- A text falls into lines in one way only. -/
theorem IsLines.unique {lines lines' : List String} {text : String} (h : IsLines lines text)
    (h' : IsLines lines' text) : lines = lines' := by
  have same := List.append_cancel_right (h.symm.trans h')
  exact List.map_injective_iff.mpr (fun _ _ => String.toList_inj.mp) same

theorem isLines_tokenListing (text : String) :
    IsLines ((tokenize text).map tokenRow) (tokenListing text) := by
  rw [tokenListing_eq]
  refine isLines_join (List.forall_mem_map.mpr fun t ht => ?_)
  exact noLineBreak_tokenRow (Source.lexical_of_mem_tokens ht)

theorem map_readRow_tokenize (text : String) :
    ((tokenize text).map tokenRow).map readRow = tokenize text := by
  rw [List.map_map]
  refine (List.map_congr_left fun t ht => ?_).trans (List.map_id _)
  exact readRow_tokenRow (Source.lexical_of_mem_tokens ht)

/-- Listings are the same only for the same tokens, since the tokens can be read off the lines. -/
theorem tokenListing_eq_iff {text text' : String} :
    tokenListing text = tokenListing text' ↔ tokenize text = tokenize text' := by
  constructor
  · intro same
    have rows := (isLines_tokenListing text).unique (same ▸ isLines_tokenListing text')
    have tokens := congrArg (List.map readRow) rows
    rwa [map_readRow_tokenize, map_readRow_tokenize] at tokens
  · intro same
    rw [tokenListing, tokenListing, same]

/-- The arguments ask for the tokens of a source that can be read and has this text. -/
def AsksForTokens (read : Origin → Except ReadFailure ByteArray) (args : List String)
    (text : String) : Prop :=
  ∃ file bytes, Request.ofArguments args = .tokens file ∧ read (Origin.ofOperand file) = .ok bytes ∧
    String.fromUTF8? bytes = some text ∧ bytes.size ≤ maxSourceSize

section

variable {read : Origin → Except ReadFailure ByteArray} {args : List String} {text : String}

/-- The report on a source that can be read is the listing of its tokens. -/
theorem AsksForTokens.report_eq (asks : AsksForTokens read args text) :
    (Request.ofArguments args).report read = Report.success (tokenListing text) := by
  obtain ⟨file, bytes, request, fetched, utf8, small⟩ := asks
  rw [request, Request.report, fetched, sourceText_eq_ok utf8 small]
  rfl

/-- A run of `tokens` on a source that can be read succeeds and writes a line for each token: the last
one is `Eof`, and each other one falls at its last space into the label and the literal of the token
at its place. Two such runs write the same exactly if the sources have the same tokens. -/
theorem report_tokens_lines (asks : AsksForTokens read args text) :
    let report := (Request.ofArguments args).report read
    report.status = 0 ∧ report.errors = "" ∧
      (∃ rows, IsLines (rows ++ ["Eof"]) report.output ∧
        (rows ++ ["Eof"]).length = (tokenize text).length ∧
        tokenize text = (tokenize text).dropLast ++ [Token.eof] ∧
        rows.map cutAtLastSpace? =
          (tokenize text).dropLast.map fun t => some (t.kind.label, t.literal)) ∧
      ∀ read' args' text', AsksForTokens read' args' text' →
        (report.output = ((Request.ofArguments args').report read').output ↔
          tokenize text = tokenize text') := by
  intro report
  have answer : report = Report.success (tokenListing text) := asks.report_eq
  rw [answer]
  refine ⟨rfl, rfl, ?_, fun read' args' text' asks' => ?_⟩
  · have closed : tokenize text = (Source.ofString text).remaining ++ [Token.eof] :=
      Source.tokens_eq_remaining _
    have lines := isLines_tokenListing text
    rw [closed, List.map_append] at lines
    refine ⟨(Source.ofString text).remaining.map tokenRow, lines, ?_, ?_, ?_⟩
    · simp [closed]
    · simp [closed]
    · rw [closed, List.dropLast_concat, List.map_map]
      refine List.map_congr_left fun t ht => ?_
      have lexical : t.Lexical := Source.lexical_of_mem_tokens (closed ▸ List.mem_append_left _ ht)
      exact cutAtLastSpace?_tokenRow lexical (Source.kind_ne_eof_of_mem_remaining ht)
  · rw [asks'.report_eq]
    exact tokenListing_eq_iff

/-- Blanks make no difference to the listing of a source with a zero byte and a no-break space, but one
more token does. -/
theorem report_tokens_lines_hostile :
    let report (text : String) :=
      (Request.ofArguments ["tokens", "-"]).report fun _ => .ok text.toUTF8
    AsksForTokens (fun _ => .ok "x<\x00\u00a0".toUTF8) ["tokens", "-"] "x<\x00\u00a0" ∧
      (report "x<\x00\u00a0").status = 0 ∧
      (report "x<\x00\u00a0").output = (report " x <\n\x00 \u00a0\t").output ∧
      (report "x<\x00\u00a0").output ≠ (report "x<\x00\u00a0=").output := by
  intro report
  have asks (text : String) (small : text.toUTF8.size ≤ maxSourceSize) :
      AsksForTokens (fun _ => .ok text.toUTF8) ["tokens", "-"] text :=
    ⟨"-", text.toUTF8, by decide +kernel, rfl, dif_pos text.isValidUTF8, small⟩
  have here := asks "x<\x00\u00a0" (by decide +kernel)
  obtain ⟨status, -, -, again⟩ := report_tokens_lines here
  have spread := again _ _ _ (asks " x <\n\x00 \u00a0\t" (by decide +kernel))
  have longer := again _ _ _ (asks "x<\x00\u00a0=" (by decide +kernel))
  exact ⟨here, status, spread.mpr (by decide +kernel), fun same =>
    absurd (longer.mp same) (by decide +kernel)⟩

end

end Command

end MonkeySyntax
