import UmkaSyntax.Source.Basic
import UmkaSyntax.Token.Kind

namespace UmkaSyntax

inductive TriviaKind
  | whitespace | lineComment | blockComment
  deriving DecidableEq

namespace TriviaKind

def all : List TriviaKind := [whitespace, lineComment, blockComment]

def tag : TriviaKind → String
  | whitespace => "Whitespace"
  | lineComment => "LineComment"
  | blockComment => "BlockComment"

def ofTag? (tag : String) : Option TriviaKind := all.find? (·.tag == tag)

def isComment (kind : TriviaKind) : Bool := kind != whitespace

end TriviaKind

structure Trivia where
  kind : TriviaKind
  span : Span
  text : String
  deriving DecidableEq

structure Token where
  kind : TokenKind
  span : Span
  text : String
  leading : List Trivia
  trailing : List Trivia
  deriving DecidableEq

namespace Token

def bare (kind : TokenKind) (span : Span) (text : String) : Token := ⟨kind, span, text, [], []⟩

def extent (t : Token) : Span where
  start := (t.leading.head?.map (·.span.start)).getD t.span.start
  stop := (t.trailing.getLast?.map (·.span.stop)).getD t.span.stop

def sourceText (t : Token) : String :=
  String.join (t.leading.map (·.text)) ++ t.text ++ String.join (t.trailing.map (·.text))

end Token

end UmkaSyntax
