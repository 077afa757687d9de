import MonkeySyntax.Command.Directory
import MonkeySyntax.Main
import MonkeySyntax.Tree.Equality
import MonkeySyntax.Tree.Outline
import MonkeySyntax.Proofs.Lexer
import MonkeySyntax.Proofs.Tree
import MonkeySyntax.Proofs.Tree.Retoken
import MonkeySyntax.Proofs.Parser.Outcome
import MonkeySyntax.Proofs.Reading
import MonkeySyntax.Proofs.Reading.ToRun
import MonkeySyntax.Proofs.Reading.OfRun
import MonkeySyntax.Proofs.Reading.WellFormed
import MonkeySyntax.Proofs.Reading.Session
import MonkeySyntax.Proofs.RoundTrip
import MonkeySyntax.Proofs.Grammar
import MonkeySyntax.Proofs.Grammar.Complete
import MonkeySyntax.Proofs.Acceptance
import MonkeySyntax.Proofs.Braces
import MonkeySyntax.Proofs.Parser.Contained
import MonkeySyntax.Proofs.Parser.Balanced
import MonkeySyntax.Proofs.Containment
import MonkeySyntax.Proofs.Reading.Yield
import MonkeySyntax.Proofs.Provenance
import MonkeySyntax.Proofs.Grammar.Sentences
import MonkeySyntax.Proofs.Parser.Recognizes
import MonkeySyntax.Proofs.Parser.Grammatical
import MonkeySyntax.Proofs.FirstError
import MonkeySyntax.Proofs.Tree.Style
import MonkeySyntax.Proofs.Tree.Written
import MonkeySyntax.Proofs.Tree.Canonical
import MonkeySyntax.Proofs.Lexer.Layout
import MonkeySyntax.Proofs.Machine.Code
import MonkeySyntax.Proofs.Machine.Step
import MonkeySyntax.Proofs.Machine.Valid
import MonkeySyntax.Proofs.Machine.Follows
import MonkeySyntax.Proofs.Machine.Rules
import MonkeySyntax.Proofs.Machine.Session
import MonkeySyntax.Proofs.Parser.Paid
import MonkeySyntax.Proofs.Parser.Spending
import MonkeySyntax.Proofs.Progress
import MonkeySyntax.Proofs.Parser.Blames
import MonkeySyntax.Proofs.Parser.Truthful
import MonkeySyntax.Proofs.Errors
import MonkeySyntax.Proofs.Printable
import MonkeySyntax.Proofs.Command
import MonkeySyntax.Proofs.Parser.Room
import MonkeySyntax.Proofs.FunctionBody
import MonkeySyntax.Proofs.Tree.Loosened
import MonkeySyntax.Proofs.Reading.Loosened
import MonkeySyntax.Proofs.Separators
import MonkeySyntax.Proofs.Lexer.Pulls
import MonkeySyntax.Proofs.Machine.Lookahead
import MonkeySyntax.Proofs.Machine.Recovery
import MonkeySyntax.Proofs.Readable
import MonkeySyntax.Proofs.Json
import MonkeySyntax.Proofs.Tree.Datum
import MonkeySyntax.Proofs.Reading.Behind
import MonkeySyntax.Proofs.Parentheses
import MonkeySyntax.Proofs.Climbing
import MonkeySyntax.Proofs.Command.Listing
import MonkeySyntax.Proofs.Datum
import MonkeySyntax.Proofs.Datum.Literals
import MonkeySyntax.Proofs.Tree.InWords
