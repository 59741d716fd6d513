import UmkaSyntax.Error.Expected
import UmkaSyntax.Error.Lexical

namespace UmkaSyntax

/-- The number of open nodes at which types, expressions and blocks no longer nest. -/
def nestingLimit : Nat := 256

inductive SyntaxIssue
  | expected (what : Expected)
  | misplacedImport (what : Expected)
  | trailing
  | tooDeep
  deriving DecidableEq

structure SyntaxError where
  issue : SyntaxIssue
  found : Token
  deriving DecidableEq

inductive ErrorKind
  | lexical (kind : LexicalKind)
  | syntactic
  | unexpectedEnd
  deriving DecidableEq

namespace ErrorKind

def all : List ErrorKind := LexicalKind.all.map lexical ++ [syntactic, unexpectedEnd]

def listing : ErrorKind → String
  | lexical kind => "Lex(" ++ kind.tag ++ ")"
  | syntactic => "Syntax"
  | unexpectedEnd => "UnexpectedEof"

end ErrorKind

namespace SyntaxError

def kind (e : SyntaxError) : ErrorKind :=
  match e.issue with
  | .expected _ | .misplacedImport _ =>
      if e.found.kind = .endOfInput then .unexpectedEnd else .syntactic
  | .trailing | .tooDeep => .syntactic

def message (e : SyntaxError) : String :=
  match e.issue with
  | .expected what | .misplacedImport what => what.message e.found
  | .trailing =>
      "Unexpected " ++ Expected.describe e.found ++ " after the end of the fragment"
  | .tooDeep => "Nesting is too deep"

def hint? (e : SyntaxError) : Option String :=
  match e.issue with
  | .expected what =>
      if e.found.kind = .unknown then some ("expected " ++ what.phrase ++ " here")
      else what.hint? e.found.kind
  | .misplacedImport _ => some "imports go at the top of the file"
  | .trailing => none
  | .tooDeep => some ("at most " ++ toString nestingLimit ++ " levels of nesting are supported")

end SyntaxError

inductive ParseError
  | lexical (e : LexicalError)
  | syntactic (e : SyntaxError)
  deriving DecidableEq

namespace ParseError

def kind : ParseError → ErrorKind
  | lexical e => .lexical e.issue.kind
  | syntactic e => e.kind

def span : ParseError → Span
  | lexical e => e.span
  | syntactic e => e.found.span

def message : ParseError → String
  | lexical e => e.issue.message
  | syntactic e => e.message

def hint? : ParseError → Option String
  | lexical e => some e.issue.kind.hint
  | syntactic e => e.hint?

def isLexical : ParseError → Bool
  | lexical _ => true
  | syntactic _ => false

def insertByStart (e : ParseError) : List ParseError → List ParseError
  | [] => [e]
  | first :: more =>
      if e.span.start ≤ first.span.start then e :: first :: more
      else first :: insertByStart e more

/-- Sorts errors by where they start; errors at one place keep their order. -/
def sortByStart (errors : List ParseError) : List ParseError := errors.foldr insertByStart []

end ParseError

end UmkaSyntax
