import UmkaSyntax.CommandLine.Output
import UmkaSyntax.Parsing.Parse
import UmkaSyntax.Text.Basic

namespace UmkaSyntax.CommandLine

def programName : String := "umka-cst"

def version : String := "0.1.0"

def helpRow (word : StyledText) (arguments : String) (gap : Nat) (what : String) : StyledText :=
  let given : StyledText :=
    if arguments.isEmpty then [] else .plain " " ++ .colour .cyan arguments
  .line (.plain "  " ++ word ++ given ++ .plain (spaces gap ++ what))

def commandRow (command : String) : String → Nat → String → StyledText :=
  helpRow (.colour .green command)

def optionRow (option : String) : String → Nat → String → StyledText :=
  helpRow (.colour .cyan option)

def heading (text : String) : StyledText := .boldColour .yellow text

def help : StyledText :=
  .line (.bold programName ++ .plain " " ++ .dimmed version ++
    .plain " - Concrete syntax trees for Umka source") ++
  .plain "\n" ++
  .line (heading "Usage" ++ .plain ": " ++ .colour .green programName ++ .plain " " ++
    .colour .cyan "<command>" ++ .plain " " ++ .colour .cyan "[args]") ++
  .plain "\n" ++
  .line (heading "Commands:") ++
  commandRow "lex" "<file>" 8 "Tokenize a file and print tokens" ++
  commandRow "parse" "<file>" 6 "Parse a file and print its tree" ++
  commandRow "check" "<file>..." 3 "Report diagnostics for files" ++
  commandRow "explain" "<code>" 4 "Explain an error code" ++
  commandRow "help" "" 14 "Show this help" ++
  commandRow "version" "" 11 "Show version" ++
  .plain "\n" ++
  .line (heading "Options:") ++
  optionRow "--format" "<fmt>" 2
    "Output format: sexp, human or json for parse; human or json for check" ++
  optionRow "--json" "" 12 "Same as --format json" ++
  optionRow "--no-color" "" 8 "Disable colored output" ++
  optionRow "--max-errors" "<n>" 4
    ("Report at most n diagnostics (default " ++ toString defaultMaxErrors ++ ")")

end UmkaSyntax.CommandLine
