import MonkeySyntax.Command.Arguments

/-!
# Help pages

The text of each page of the help, line by line.
-/

namespace MonkeySyntax.Command

/-- The lines of a help page. -/
def HelpPage.lines : HelpPage → List String
  | overview =>
    ["Tokenize and parse Monkey source, printing tokens or the syntax tree",
      "",
      "Usage: monkey <COMMAND>",
      "",
      "Commands:",
      "  tokens  Print the token stream, one token per line",
      "  parse   Parse a source file and dump the AST",
      "  help    Print this message or the help of the given subcommand(s)",
      "",
      "Options:",
      "  -h, --help  Print help"]
  | tokens =>
    ["Print the token stream, one token per line",
      "",
      "Usage: monkey tokens <FILE>",
      "",
      "Arguments:",
      "  <FILE>  Path to source file, or `-` for stdin",
      "",
      "Options:",
      "  -h, --help  Print help"]
  | parseBrief =>
    ["Parse a source file and dump the AST",
      "",
      "Usage: monkey parse [OPTIONS] <FILE>",
      "",
      "Arguments:",
      "  <FILE>  Path to source file, or `-` for stdin",
      "",
      "Options:",
      "      --format <FORMAT>  Output format [default: canonical] " ++
        "[possible values: canonical, pretty, json]",
      "  -h, --help             Print help (see more with '--help')"]
  | parseFull =>
    ["Parse a source file and dump the AST",
      "",
      "Usage: monkey parse [OPTIONS] <FILE>",
      "",
      "Arguments:",
      "  <FILE>",
      "          Path to source file, or `-` for stdin",
      "",
      "Options:",
      "      --format <FORMAT>",
      "          Output format",
      "",
      "          Possible values:",
      "          - canonical: Fully parenthesized source, one line",
      "          - pretty",
      "          - json",
      "          ",
      "          [default: canonical]",
      "",
      "  -h, --help",
      "          Print help (see a summary with '-h')"]
  | help =>
    ["Print this message or the help of the given subcommand(s)",
      "",
      "Usage: monkey help [COMMAND]...",
      "",
      "Arguments:",
      "  [COMMAND]...  Print help for the subcommand(s)"]

/-- The text of a help page: its lines, each closed by a line break. -/
def HelpPage.text (page : HelpPage) : String :=
  String.join (page.lines.map (· ++ "\n"))

end MonkeySyntax.Command
