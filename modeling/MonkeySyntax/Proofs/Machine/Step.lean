import Mathlib.Logic.Relation
import MonkeySyntax.Proofs.Machine.Code

/-!
# The machine

How code is run, one step at a time. The machine breaks down (`Fault`) where it would look outside its
buffer or lower a counter that is at zero; nothing in its steps makes up for that.

* `State`, `Stack`, `Config` — the buffer with its position, count and errors; what is to be done with
  the end of the code that is running; both together with that code.
* `step`, `Reaches` — one step, and any number of them.
-/

namespace MonkeySyntax.Machine

/-! ## States -/

/-- What the machine changes as it goes. -/
structure State where
  /-- All tokens of the source. -/
  tokens : List Token
  /-- Where the current token is. -/
  pos : Nat
  /-- How many expressions are open inside one another. -/
  depth : Nat
  /-- The errors recorded so far. -/
  errors : List ParseError

/-- Why a machine breaks down. -/
inductive Fault where
  /-- It looks outside the buffer. -/
  | outside
  /-- It lowers a counter that is at zero. -/
  | underflow
  deriving DecidableEq

/-- One less, where that is a number. -/
def lower : Nat → Except Fault Nat
  | 0 => .error .underflow
  | n + 1 => .ok n

namespace State

/-- The token at an index of the buffer. -/
def tokenAt (s : State) (index : Nat) : Except Fault Token :=
  match s.tokens[index]? with
  | some t => .ok t
  | none => .error .outside

/-- The token at the position. -/
def current (s : State) : Except Fault Token := s.tokenAt s.pos

/-- The token behind the current one; nothing follows the end of the input but itself. -/
def following (s : State) : Except Fault Token := do
  let t ← s.current
  if t.kind = .eof then return t else s.tokenAt (s.pos + 1)

/-- The state behind the current token, unless that is the end of the input. -/
def advance (s : State) : Except Fault State := do
  let t ← s.current
  return if t.kind = .eof then s else { s with pos := s.pos + 1 }

end State

/-! ## Configurations -/

/-- What is left to be done with the value or the error of code of type `α`, until there is one of
type `ρ`. -/
inductive Stack (ρ : Type) : Type → Type 1
  /-- Nothing is left. -/
  | done : Stack ρ ρ
  /-- Go on as a branch says. -/
  | branch {α β : Type} (ok : α → Code β) (failed : ParseError → Code β) (below : Stack ρ β) :
    Stack ρ α
  /-- Go on with the loop of which this was a round. -/
  | again {σ : Type} (continues : Kind → Bool) (round : σ → Code σ) (below : Stack ρ σ) : Stack ρ σ
  /-- Close the expression. -/
  | close (below : Stack ρ (Measured Expr)) : Stack ρ (Measured Expr)

/-- How many expressions are waiting to be closed. -/
def Stack.opens {ρ α : Type} : Stack ρ α → Nat
  | done => 0
  | branch _ _ below => below.opens
  | again _ _ below => below.opens
  | close below => below.opens + 1

/-- What the machine is about to do. -/
inductive Config (ρ : Type) : Type 1
  /-- Run code. -/
  | run {α : Type} (code : Code α) (stack : Stack ρ α) (state : State) : Config ρ
  /-- Go back to the stack with a value or an error. -/
  | back {α : Type} (result : Except ParseError α) (stack : Stack ρ α) (state : State) : Config ρ

namespace Config

variable {ρ : Type}

/-- The state of the machine. -/
def state : Config ρ → State
  | run _ _ s => s
  | back _ _ s => s

/-- How many expressions are waiting to be closed. -/
def opens : Config ρ → Nat
  | run _ k _ => k.opens
  | back _ k _ => k.opens

end Config

/-! ## Steps -/

/-- What comes of one step. -/
inductive Next (ρ : Type) : Type 1
  /-- The machine goes on. -/
  | goes (c : Config ρ) : Next ρ
  /-- There is nothing left to do. -/
  | ends : Next ρ
  /-- The machine breaks down. -/
  | breaks (fault : Fault) : Next ρ

section

variable {ρ : Type}

/-- Go on with what has been computed, unless that broke down. -/
def Next.after {α : Type} (computed : Except Fault α) (next : α → Config ρ) : Next ρ :=
  match computed with
  | .ok a => .goes (next a)
  | .error fault => .breaks fault

/-- One round of moving on to the end of a broken statement, at a token of the given kind. -/
def stepResume (inBody : Bool) (braces : Nat) (k : Stack ρ Unit) (s : State) : Kind → Next ρ
  | .eof => .goes (.back (.ok ()) k s)
  | .semicolon => .after s.advance fun s =>
    if braces = 0 then .back (.ok ()) k s else .run (.resume inBody braces) k s
  | .openBrace => .after s.advance fun s => .run (.resume inBody (braces + 1)) k s
  | .closeBrace =>
    if 0 < braces then
      match lower braces with
      | .ok braces => .after s.advance fun s => .run (.resume inBody braces) k s
      | .error fault => .breaks fault
    else if inBody then .goes (.back (.ok ()) k s)
    else .after s.advance fun s => .back (.ok ()) k s
  | _ => .after s.advance fun s => .run (.resume inBody braces) k s

/-- Run the first instruction of the code. -/
def stepRun {α : Type} : Code α → Stack ρ α → State → Next ρ
  | .give a, k, s => .goes (.back (.ok a) k s)
  | .fail e, k, s => .goes (.back (.error e) k s)
  | .branch first ok failed, k, s => .goes (.run first (.branch ok failed k) s)
  | .current, k, s => .after s.current fun t => .back (.ok t) k s
  | .following, k, s => .after s.following fun t => .back (.ok t) k s
  | .advance, k, s => .after s.advance fun s => .back (.ok ()) k s
  | .record e, k, s => .goes (.back (.ok ()) k { s with errors := s.errors ++ [e] })
  | .resume inBody braces, k, s =>
    match s.current with
    | .ok t => stepResume inBody braces k s t.kind
    | .error fault => .breaks fault
  | .repeatWhile continues round a, k, s => .after s.current fun t =>
    if continues t.kind then .run (round a) (.again continues round k) s else .back (.ok a) k s
  | .expression min, k, s =>
    if maxOpen ≤ s.depth then .goes (.back (.error (.nestingTooDeep maxHeight)) k s)
    else .goes (.run (Code.climb min) (.close k) { s with depth := s.depth + 1 })

/-- Do what is on top of the stack. -/
def stepBack {α : Type} : Except ParseError α → Stack ρ α → State → Next ρ
  | _, .done, _ => .ends
  | .ok a, .branch ok _ k, s => .goes (.run (ok a) k s)
  | .error e, .branch _ failed k, s => .goes (.run (failed e) k s)
  | .ok a, .again continues round k, s => .goes (.run (.repeatWhile continues round a) k s)
  | .error e, .again _ _ k, s => .goes (.back (.error e) k s)
  | result, .close k, s => .after (lower s.depth) fun depth => .back result k { s with depth }

/-- One step of the machine. -/
def step : Config ρ → Next ρ
  | .run c k s => stepRun c k s
  | .back result k s => stepBack result k s

/-- Some number of steps leads from one configuration to the other. -/
def Reaches : Config ρ → Config ρ → Prop :=
  Relation.ReflTransGen fun c c' => step c = .goes c'

end

end MonkeySyntax.Machine
