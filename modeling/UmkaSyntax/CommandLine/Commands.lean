import UmkaSyntax.CommandLine.Help
import UmkaSyntax.CommandLine.Listing
import UmkaSyntax.CommandLine.Options
import UmkaSyntax.Diagnostic.OfError
import UmkaSyntax.Diagnostic.Report
import UmkaSyntax.Tree.SExpression

namespace UmkaSyntax.CommandLine

inductive ReadFailure
  | missing | denied | notDirectory | directory | nameTooLong | notText
  | other (message : String)

def ReadFailure.message : ReadFailure → String
  | missing => "No such file or directory (os error 2)"
  | denied => "Permission denied (os error 13)"
  | notDirectory => "Not a directory (os error 20)"
  | directory => "Is a directory (os error 21)"
  | nameTooLong => "File name too long (os error 36)"
  | notText => "stream did not contain valid UTF-8"
  | other message => message

abbrev Disk := String → Except ReadFailure String

def unreadable (path : String) (failure : ReadFailure) : Output :=
  .inOrder [errorLine (.plain "reading " ++ .underlined path ++ .plain (": " ++ failure.message)),
    .fail]

def printDiagnostics (path : String) (cs : List Char) (ds : List Diagnostic) : Output :=
  let file := SourceFile.ofText path cs
  .complain (ds.flatMap fun d => StyledText.line (d.render file))

def printReport (path : String) (cs : List Char) (ds : List Diagnostic) (tree : Option Node) :
    Output :=
  let report := Report.ofDiagnostics (SourceFile.ofText path cs) ds tree
  .print (.line (.plain report.toJson.pretty))

def lexFile (path source : String) : Output :=
  let stream := TokenStream.ofText source.toList
  let count := toString stream.toList.length
  let title := banner (.plain ("Tokens (" ++ count ++ ")"))
  let listing := Output.print
    (.line title ++ .plain "\n" ++ stream.toList.flatMap tokenRow)
  let ds := stream.errors.map fun e => (ParseError.lexical e).diagnostic
  if ds.isEmpty then
    .inOrder [listing, .print (.plain "\n" ++ .line (okBanner ("Lex: " ++ count ++ " tokens")))]
  else
    .inOrder [listing, printDiagnostics path source.toList ds,
      .complain (.line (failBanner "Lex" ds.length)), .fail]

def parseFile (format : Format) (maxErrors : Nat) (path source : String) : Output :=
  let result := parse .program maxErrors source
  let cs := source.toList
  let ds := diagnostics cs result.errors
  let tree := match format with
    | .json => printReport path cs ds (some result.root)
    | .sExpression => .print (.line (.plain result.root.sExpression))
    | .human => .print (outline result.root)
  if ds.isEmpty then tree
  else if format = .json then .inOrder [tree, .fail]
  else
    .inOrder [tree, printDiagnostics path cs ds, .complain (.line (failBanner "Parse" ds.length)),
      .fail]

def checkFile (format : Format) (maxErrors : Nat) (path source : String) : Output :=
  let cs := source.toList
  let ds := diagnostics cs (parse .program maxErrors source).errors
  let verdict := if ds.isEmpty then Output.nothing else .fail
  if format = .json then .inOrder [printReport path cs ds none, verdict]
  else if ds.isEmpty then
    .print (.line (.colour .green "✓" ++ .plain " " ++ .underlined path))
  else
    .inOrder [printDiagnostics path cs ds,
      .complain (.line (.colour .red "✗" ++ .plain " " ++ failBanner path ds.length)), verdict]

def checkFiles (disk : Disk) (format : Format) (maxErrors : Nat) : List String → Output
  | [] => .nothing
  | path :: more => match disk path with
      | .error failure => unreadable path failure
      | .ok source =>
          (checkFile format maxErrors path source).andThen (checkFiles disk format maxErrors more)

def onFile (disk : Disk) (command : String → String → Output) (path : String) : Output :=
  match disk path with
  | .error failure => unreadable path failure
  | .ok source => command path source

def explain (code : String) : Output :=
  let code := String.ofList (code.toList.map Char.toUpper)
  match ErrorKind.ofCode? code with
  | some kind =>
      .print (.line (.boldColour .red "error" ++ .plain "[" ++ .boldColour .red kind.code ++
        .plain "]: " ++ .bold kind.title) ++
        .plain ("\n  Category: " ++ kind.category ++ "\n\n  " ++ kind.explanation ++ "\n\n" ++
          "  Run `umka-cst check <file>` to see this error in context.\n"))
  | none =>
      let known := ", ".intercalate (ErrorKind.all.map ErrorKind.code)
      .inOrder [errorLine (.plain ("unknown error code `" ++ code ++ "`")),
        .complain (.plain ("\nKnown codes: " ++ known ++ "\n")), .fail]

def usage (text : String) : Output :=
  .inOrder [.complain (.plain ("Usage: " ++ programName ++ " " ++ text ++ "\n")), .fail]

def withOne (options : Options) (text : String) (command : String → Output) : Output :=
  match options.files with
  | [argument] => command argument
  | _ => usage text

def isSourceName (word : String) : Bool := ".um".toList.isSuffixOf word.toList

def runCommand (disk : Disk) (options : Options) (command : String) : Output :=
  match command with
  | "lex" => withOne options "lex <file>" (onFile disk lexFile)
  | "parse" => withOne options "parse <file> [--format sexp|json]" <|
      onFile disk (parseFile (options.format.getD .sExpression) options.maxErrors)
  | "check" =>
      if options.files.isEmpty then usage "check <file>... [--format human|json] [--no-color]"
      else checkFiles disk (options.format.getD .human) options.maxErrors options.files
  | "explain" => withOne options "explain <code>" explain
  | "help" | "--help" | "-h" => .print help
  | "version" | "--version" | "-V" => .print (.plain (programName ++ " " ++ version ++ "\n"))
  | word =>
      if isSourceName word then onFile disk (parseFile .sExpression options.maxErrors) word
      else
        .inOrder [errorLine (.plain ("unknown command: " ++ word)), .print help, .fail]

structure Finished where
  status : Nat
  out : String
  err : String
  deriving DecidableEq

def Output.finish (colours : Bool) (output : Output) : Finished :=
  ⟨output.status, output.out.write colours, output.err.write colours⟩

/-- Options are read before the command is looked at. -/
def run (disk : Disk) (environment : String → Option String) (args : List String) : Finished :=
  let initial := Options.initial (coloursAsked environment)
  match args with
  | [] => (Output.print help).finish initial.colours
  | command :: more => match initial.read more with
      | .ok options => (runCommand disk options command).finish options.colours
      | .error failure =>
          (Output.inOrder [errorLine (.plain failure.issue.message), .fail]).finish
            failure.sofar.colours

end UmkaSyntax.CommandLine
