import MonkeySyntax.Parser.Height
import MonkeySyntax.Parser.Recovery
import MonkeySyntax.Precedence
import MonkeySyntax.Tree

/-!
# Statements and blocks

The rules for statements, over a given rule `expr` for expressions:

    statement = ( `let` identifier `=` expr | `return` expr | expr ) [ `;` ]
    block     = statement*

A block never stops with an error. A statement that cannot be read is recorded and left out, and
reading resumes behind it. Its height is that of the highest statement that was kept.
-/

namespace MonkeySyntax.Parser

variable (expr : Precedence → Rule (Measured Expr))

/-- A name. -/
def identifier : Parser Ident := do
  let token ← expect .identifier
  return Ident.ofToken token

theorem consumes_identifier : identifier.Consumes :=
  (consumes_expect (by decide)).bind _

/-- A name is bound to a value. -/
def letStatement : Parser (Measured Stmt) := do
  let token ← expect .letWord
  let name ← identifier
  let _ ← expect .assignment
  let value ← (expr .lowest).toParser
  skip .semicolon
  return ⟨.binding token name value.value, value.height⟩

/-- A value is returned. -/
def returnStatement : Parser (Measured Stmt) := do
  let token ← expect .returnWord
  let value ← (expr .lowest).toParser
  skip .semicolon
  return ⟨.ret token value.value, value.height⟩

/-- An expression on its own, remembered with its first token. -/
def expressionStatement : Parser (Measured Stmt) := do
  let token ← current
  let value ← (expr .lowest).toParser
  skip .semicolon
  return ⟨.expr token value.value, value.height⟩

/-- One statement; the first token says of which form. -/
def statement : Parser (Measured Stmt) := do
  let first ← current
  match first.kind with
  | .letWord => letStatement expr
  | .returnWord => returnStatement expr
  | _ => expressionStatement expr

theorem consumes_statement : (statement expr).Consumes := by
  refine consumes_bind fun first => ?_
  split
  · exact (consumes_expect (by decide)).bind _
  · exact (consumes_expect (by decide)).bind _
  · exact consumes_bind fun _ => (expr .lowest).consumes.bind _

/-- One round of a block: a statement, or nothing where it cannot be read. -/
def statementOrSkip (inBody : Bool) : Parser (Option (Measured Stmt)) :=
  (statement expr).recovering (Tokens.resume inBody 0) (Tokens.resume_suffix inBody 0)

/-- Whether a block goes on at a token of this kind: not at the end of the input, and a function body
not at its closing brace. -/
def inBlock (inBody : Bool) (kind : Kind) : Bool :=
  kind ≠ .eof && !(inBody && kind = .closeBrace)

theorem progresses_statementOrSkip (inBody : Bool) :
    (statementOrSkip expr inBody).Progresses (inBlock inBody) := by
  intro ts o goesOn _
  have success := consumes_statement expr ts
  have suffix := (statement expr).rest_suffix ts
  unfold statementOrSkip recovering
  dsimp only
  revert success suffix
  cases (statement expr).run ts with
  | mk result recorded rest reach =>
    intro success suffix
    cases result with
    | ok s => exact success s rfl
    | error e =>
      show (Tokens.resume inBody 0 rest).length < ts.length
      rcases Nat.lt_or_eq_of_le suffix.length_le with shorter | same
      · exact Nat.lt_of_le_of_lt (Tokens.resume_suffix inBody 0 rest).length_le shorter
      · have unmoved : rest = ts := suffix.eq_of_length same
        subst unmoved
        simp only [inBlock, Bool.and_eq_true, ne_eq, decide_not, Bool.not_eq_eq_eq_not] at goesOn
        refine Tokens.length_resume_lt ?_ ?_ 0 <;> simp_all

/-- Statements up to the end of the input or, in a function body, to its closing brace. -/
def block (inBody : Bool) : Parser (Measured (List Stmt)) := do
  let rounds ← collect (inBlock inBody) (statementOrSkip expr inBody)
    (progresses_statementOrSkip expr inBody)
  let kept := rounds.filterMap id
  return ⟨kept.map Measured.value, Measured.highest kept⟩

/-- Whatever the tokens are, a block has a value. -/
theorem total_block (inBody : Bool) : (block expr inBody).Total :=
  (Total.collect (total_recovering _ _ _)).bind fun _ => total_pure _

end MonkeySyntax.Parser
