/-!
# Command-line arguments

What a list of arguments asks for. There are two subcommands, `tokens FILE` and `parse FILE`, and a
help page for each and for the whole; `parse` takes one `--format`, before or behind the file. Options
are read from left to right: help wins over everything behind it, a mistake over everything behind
that, and `--` makes operands of the rest.
-/

namespace MonkeySyntax.Command

/-- The forms in which a parsed program can be printed. -/
inductive Format where
  | canonical
  | pretty
  | json
  deriving DecidableEq

/-- The format with a given name. -/
def Format.ofName? : String → Option Format
  | "canonical" => some canonical
  | "pretty" => some pretty
  | "json" => some json
  | _ => none

/-- The pages of the help. That of `parse` has a brief and a full form. -/
inductive HelpPage where
  | overview
  | tokens
  | parseBrief
  | parseFull
  | help
  deriving DecidableEq

/-- What a list of arguments asks for. -/
inductive Request where
  /-- List the tokens of a file. -/
  | tokens (file : String)
  /-- Parse a file and print the program. -/
  | parse (file : String) (format : Format)
  /-- Print a page of the help. -/
  | help (page : HelpPage)
  /-- The arguments make no sense. -/
  | misuse
  deriving DecidableEq

/-! ## One argument -/

/-- How a single argument is to be taken where options are allowed. -/
inductive Argument where
  /-- `--`: only operands follow. -/
  | endOfOptions
  /-- `--name` or `--name=value`. -/
  | long (name : String) (value : Option String)
  /-- `-f`, whatever follows the letter. -/
  | short (flag : Char)
  /-- Anything else, `-` on its own included. -/
  | operand (text : String)
  deriving DecidableEq

/-- The name and the value of a long option, cut at the first `=`. -/
def longOption (text : List Char) : Argument :=
  let name := text.takeWhile (· ≠ '=')
  match text.dropWhile (· ≠ '=') with
  | [] => .long (String.ofList name) none
  | _ :: value => .long (String.ofList name) (some (String.ofList value))

/-- How an argument is to be taken. -/
def Argument.ofString (arg : String) : Argument :=
  match arg.toList with
  | ['-', '-'] => endOfOptions
  | '-' :: '-' :: text => longOption text
  | '-' :: flag :: _ => short flag
  | _ => operand arg

/-! ## The arguments of a subcommand -/

/-- The subcommands that read a file. -/
inductive Subcommand where
  | tokens
  | parse
  deriving DecidableEq

namespace Subcommand

/-- The help page of a subcommand. -/
def help (sub : Subcommand) (brief : Bool) : HelpPage :=
  match sub with
  | tokens => .tokens
  | parse => if brief then .parseBrief else .parseFull

/-- The request of a subcommand once its arguments are read: it needs a file. -/
def request (sub : Subcommand) (file : Option String) (format : Option Format) : Request :=
  match sub, file with
  | _, none => .misuse
  | tokens, some file => .tokens file
  | parse, some file => .parse file (format.getD .canonical)

/-- The arguments behind `--`: at most the file. -/
def readOperands (sub : Subcommand) (file : Option String) (format : Option Format) :
    List String → Request
  | [] => sub.request file format
  | [arg] => if file = none then sub.request (some arg) format else .misuse
  | _ => .misuse

/-- The arguments of a subcommand, given the file and the format among those before. -/
def readArguments (sub : Subcommand) (file : Option String) (format : Option Format) :
    List String → Request
  | [] => sub.request file format
  | arg :: rest =>
    match Argument.ofString arg with
    | .endOfOptions => sub.readOperands file format rest
    | .long "help" none => .help (sub.help false)
    | .short 'h' => .help (sub.help true)
    | .long "format" value =>
      if sub = parse ∧ format = none then
        match value with
        | some name =>
          match Format.ofName? name with
          | some format => sub.readArguments file (some format) rest
          | none => .misuse
        | none =>
          match rest with
          | [] => .misuse
          | name :: rest =>
            match Format.ofName? name with
            | some format => sub.readArguments file (some format) rest
            | none => .misuse
      else
        .misuse
    | .operand text => if file = none then sub.readArguments (some text) format rest else .misuse
    | _ => .misuse

end Subcommand

/-! ## All arguments -/

/-- The help page on a topic. -/
def helpRequest : List String → Request
  | [] => .help .overview
  | ["tokens"] => .help .tokens
  | ["parse"] => .help .parseFull
  | ["help"] => .help .help
  | _ => .misuse

/-- What the arguments of the command ask for. -/
def Request.ofArguments : List String → Request
  | [] => misuse
  | "tokens" :: rest => Subcommand.tokens.readArguments none none rest
  | "parse" :: rest => Subcommand.parse.readArguments none none rest
  | "help" :: rest => helpRequest rest
  | arg :: _ =>
    match Argument.ofString arg with
    | .long "help" none => help .overview
    | .short 'h' => help .overview
    | _ => misuse

end MonkeySyntax.Command
