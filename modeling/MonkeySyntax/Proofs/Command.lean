import MonkeySyntax.Command.Report
import MonkeySyntax.Proofs.Errors
import MonkeySyntax.Proofs.Printable
import MonkeySyntax.Proofs.Reading.Session
import MonkeySyntax.Proofs.Reading.WellFormed

/-!
# What the command writes

`report_parse_lines` — a run of `parse` either answers with the program on one line, or lists the errors
and how many there are, each on one line. Whatever bytes the source has, only printable ASCII gets from
it into these lines.
-/

namespace MonkeySyntax.Command

/-! ## Lines -/

/-- Cut at its line breaks, the text falls into exactly these lines, with nothing behind the last line
break. -/
def IsLines (lines : List String) (text : String) : Prop :=
  text.toList.splitOn '\n' = lines.map String.toList ++ [[]]

/-- Texts without line breaks are the lines of what they are printed as. -/
theorem isLines_join {lines : List String} (h : ∀ line ∈ lines, '\n' ∉ line.toList) :
    IsLines lines (String.join (lines.map (· ++ "\n"))) := by
  have joined : (String.join (lines.map (· ++ "\n"))).toList =
      ['\n'].intercalate (lines.map String.toList ++ [[]]) := by
    clear h
    induction lines with
    | nil => rfl
    | cons line lines ih =>
      rw [List.map_cons, String.join_cons, String.toList_append, ih, String.toList_append,
        List.map_cons, List.cons_append, List.intercalate_cons_of_ne_nil (by simp)]
      rfl
  rw [IsLines, joined]
  apply List.splitOn_intercalate
  · rintro l hl
    rcases List.mem_append.mp hl with here | nothing
    · obtain ⟨line, inside, rfl⟩ := List.mem_map.mp here
      exact h line inside
    · rw [List.mem_singleton.mp nothing]
      exact List.not_mem_nil
  · simp

/-! ## Answers to `parse` -/

section

variable {read : Origin → Except ReadFailure ByteArray} {args : List String} {file : String}
  {format : Format} {bytes : ByteArray} {text : String}

theorem sourceText_eq_ok {origin : Origin} (utf8 : String.fromUTF8? bytes = some text)
    (small : bytes.size ≤ maxSourceSize) : sourceText origin (.ok bytes) = .ok text := by
  rw [sourceText, utf8]
  exact if_neg (Nat.not_lt.mpr small)

/-- The report on a source that can be read is the answer for its text. -/
theorem report_parse (fetched : read (Origin.ofOperand file) = .ok bytes)
    (utf8 : String.fromUTF8? bytes = some text) (small : bytes.size ≤ maxSourceSize) :
    (Request.parse file format).report read =
      Report.ofExcept (programListing file format text) := by
  rw [Request.report, fetched, sourceText_eq_ok utf8 small]
  rfl

theorem printable_canonical_parse (text : String) : PrintableAscii (parse text).1.canonical := by
  obtain ⟨rest, d, reads, -⟩ := reads_parse True text fun _ => trivial
  have wf : (parse text).1.WellFormed := reads.wellFormed fun t ht => Source.lexical_of_mem_tokens ht
  exact wf.printable_canonical

theorem printable_message_of_mem_errors {e : ParseError} (h : e ∈ (parse text).2) :
    PrintableAscii e.message := by
  obtain ⟨t, lexical, isTrue⟩ := exists_trueOf_of_mem_errors h
  exact isTrue.printable_message lexical

/-- A run of `parse` on a source that can be read has one of two outcomes. Without errors, the status is
0 and, in canonical format, the answer is one line of printable ASCII. With errors, there is no answer,
the status is 1, and there is one line for each error, in order, and a last one that counts them. What
comes from the source into these lines is printable ASCII. Status and error lines do not depend on the
format. -/
theorem report_parse_lines (request : Request.ofArguments args = .parse file format)
    (fetched : read (Origin.ofOperand file) = .ok bytes)
    (utf8 : String.fromUTF8? bytes = some text) (small : bytes.size ≤ maxSourceSize)
    (oneLine : '\n' ∉ file.toList) :
    let report := (Request.ofArguments args).report read
    let errors := (parse text).2
    (errors = [] ∧ report.status = 0 ∧ report.errors = "" ∧
        (format = .canonical → PrintableAscii (parse text).1.canonical ∧
          IsLines [(parse text).1.canonical] report.output)) ∨
      (errors ≠ [] ∧ report.status = 1 ∧ report.output = "" ∧
        (∀ e ∈ errors, PrintableAscii e.message) ∧
        IsLines (errors.map (fun e => file ++ ": " ++ e.message) ++
          ["Error: " ++ toString errors.length ++ " parse error(s) in " ++ file]) report.errors) := by
  intro report errors
  have answer : report = Report.ofExcept (programListing file format text) := by
    rw [← report_parse fetched utf8 small, ← request]
  have canonical := printable_canonical_parse text
  have messages : ∀ e ∈ errors, PrintableAscii e.message :=
    fun e he => printable_message_of_mem_errors he
  by_cases none : errors = []
  · have accepted : parseFile file text = .ok (parse text).1 :=
      parseFile_eq_ok_iff.mpr (Prod.ext rfl none)
    have success : report = Report.success (format.print (parse text).1) := by
      rw [answer, programListing, accepted]
      rfl
    rw [success]
    refine .inl ⟨none, rfl, rfl, ?_⟩
    rintro rfl
    have line : IsLines [(parse text).1.canonical] ((parse text).1.canonical ++ "\n") := by
      simpa using isLines_join (List.forall_mem_singleton.mpr canonical.noLineBreak)
    exact ⟨canonical, line⟩
  · have refused : parseFile file text = .error ⟨file, errors⟩ :=
      parseFile_eq_error_iff.mpr ⟨rfl, none⟩
    have failure : report = Report.failure (.rejected ⟨file, errors⟩) := by
      rw [answer, programListing, refused]
      rfl
    rw [failure]
    refine .inr ⟨none, rfl, rfl, messages, ?_⟩
    have last : "Error: " ++ toString errors.length ++ " parse error(s) in " ++ file =
        "Error: " ++ (toString errors.length ++ " parse error(s) in " ++ file) := by
      simp only [String.append_assoc]
    rw [last]
    apply isLines_join
    rw [List.forall_mem_append, List.forall_mem_map, List.forall_mem_singleton, ← last]
    constructor
    · intro e he
      simp [oneLine, (messages e he).noLineBreak]
    · have count := (printable_toString errors.length).noLineBreak
      simp only [String.toList_append, List.mem_append, not_or]
      exact ⟨⟨⟨by decide, count⟩, by decide⟩, oneLine⟩

/-- A zero byte and a letter beyond ASCII are reported by their codes. -/
theorem report_parse_lines_hostile :
    Request.ofArguments ["parse", "a.monkey"] = .parse "a.monkey" .canonical ∧
      String.fromUTF8? "let \x00;é".toUTF8 = some "let \x00;é" ∧
      "let \x00;é".toUTF8.size ≤ maxSourceSize ∧ '\n' ∉ "a.monkey".toList ∧
      let report := (Request.ofArguments ["parse", "a.monkey"]).report
        fun _ => .ok "let \x00;é".toUTF8
      report.status = 1 ∧ report.output = "" ∧
        IsLines ["a.monkey: Lexer error: illegal byte 0x00",
          "a.monkey: Lexer error: illegal byte 0xc3",
          "Error: 2 parse error(s) in a.monkey"] report.errors := by
  have request : Request.ofArguments ["parse", "a.monkey"] = .parse "a.monkey" .canonical := by
    decide +kernel
  have utf8 : String.fromUTF8? "let \x00;é".toUTF8 = some "let \x00;é" :=
    dif_pos "let \x00;é".isValidUTF8
  have small : "let \x00;é".toUTF8.size ≤ maxSourceSize := by decide +kernel
  have oneLine : '\n' ∉ "a.monkey".toList := by decide
  have errors : (parse "let \x00;é").2 = [.illegalByte 0x00, .illegalByte 0xc3] := by
    decide +kernel
  refine ⟨request, utf8, small, oneLine, ?_⟩
  rcases @report_parse_lines (fun _ => .ok _) _ _ _ _ _ request rfl utf8 small oneLine with
    ⟨none, -⟩ | ⟨-, status, output, -, lines⟩
  · rw [errors] at none
    cases none
  · rw [errors] at lines
    exact ⟨status, output, lines⟩

end

end MonkeySyntax.Command
