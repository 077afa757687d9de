import MonkeySyntax.Parser.Outcome

/-!
# Resuming after a broken statement

When a statement cannot be read, the tokens up to its end are dropped. Its end is the first `;` that
stands outside braces opened since, or the `}` that closes the body around it. At top level there is
no such body: a `}` without its `{` closes nothing and is dropped, so that reading goes on behind it.
-/

namespace MonkeySyntax.Tokens

/-- Drop tokens to the end of the statement, with `braces` braces open since the error. Behind a `;`
outside of them; at an unmatched `}` inside a body and behind it at top level; at the end of the input
in any case. -/
def resume (inBody : Bool) (braces : Nat) : Tokens → Tokens
  | [] => []
  | t :: ts =>
    match t.kind with
    | .eof => t :: ts
    | .semicolon => if braces = 0 then ts else resume inBody braces ts
    | .openBrace => resume inBody (braces + 1) ts
    | .closeBrace =>
      if braces = 0 then
        if inBody then t :: ts else ts
      else
        resume inBody (braces - 1) ts
    | _ => resume inBody braces ts

theorem resume_suffix (inBody : Bool) (braces : Nat) (ts : Tokens) :
    resume inBody braces ts <:+ ts := by
  induction ts generalizing braces with
  | nil => exact List.suffix_refl _
  | cons t ts ih =>
    have later (n : Nat) : resume inBody n ts <:+ t :: ts := (ih n).trans (List.suffix_cons t ts)
    have behind : ts <:+ t :: ts := List.suffix_cons t ts
    have here : t :: ts <:+ t :: ts := List.suffix_refl _
    rw [resume]
    repeat' split
    all_goals first | exact here | exact behind | exact later _

/-- Recovery drops at least one token, unless it starts at the end of the input or at the `}` of the
body around it. -/
theorem length_resume_lt {inBody : Bool} {ts : Tokens} (notAtEnd : ts.current.kind ≠ .eof)
    (notClosing : ¬(inBody = true ∧ ts.current.kind = .closeBrace)) (braces : Nat) :
    (resume inBody braces ts).length < ts.length := by
  cases ts with
  | nil => simp [current, Token.eof] at notAtEnd
  | cons t ts =>
    have later (n : Nat) : (resume inBody n ts).length < (t :: ts).length :=
      Nat.lt_succ_of_le (resume_suffix inBody n ts).length_le
    have behind : ts.length < (t :: ts).length := Nat.lt_succ_self _
    rw [current] at notAtEnd notClosing
    rw [resume]
    repeat' split
    all_goals first | exact behind | exact later _ | simp_all

end MonkeySyntax.Tokens
