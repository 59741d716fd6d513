import UmkaSyntax.Source.Basic

namespace UmkaSyntax

inductive LexicalKind
  | unterminatedLiteral | unterminatedComment
  | invalidEscape | invalidFormat | missingModule
  deriving DecidableEq

namespace LexicalKind

def all : List LexicalKind :=
  [unterminatedLiteral, unterminatedComment, invalidEscape, invalidFormat, missingModule]

def tag : LexicalKind → String
  | unterminatedLiteral => "UnterminatedLiteral"
  | unterminatedComment => "UnterminatedComment"
  | invalidEscape => "InvalidEscape"
  | invalidFormat => "InvalidFormatSequence"
  | missingModule => "InvalidModuleSequence"

def title : LexicalKind → String
  | unterminatedLiteral => "unterminated literal"
  | unterminatedComment => "unterminated block comment"
  | invalidEscape => "invalid escape sequence"
  | invalidFormat => "invalid format sequence"
  | missingModule => "invalid module sequence"

def hint : LexicalKind → String
  | unterminatedLiteral => "Add a closing '\"' before the end of the line"
  | unterminatedComment => "Close the comment with '*/'"
  | invalidEscape => "Valid: \\0 \\a \\b \\e \\f \\n \\r \\t \\v \\xNN"
  | invalidFormat => "Conversions: d i u x X f F e E g G s c v %"
  | missingModule => "Import paths end in a module file like \"utils.um\""

end LexicalKind

inductive LexicalIssue
  | unterminatedString
  | unterminatedCharacter
  | unterminatedComment
  | invalidEscape (text : String)
  | invalidFormat (text : String)
  | missingModule
  deriving DecidableEq

namespace LexicalIssue

def kind : LexicalIssue → LexicalKind
  | unterminatedString | unterminatedCharacter => .unterminatedLiteral
  | unterminatedComment => .unterminatedComment
  | invalidEscape _ => .invalidEscape
  | invalidFormat _ => .invalidFormat
  | missingModule => .missingModule

def message : LexicalIssue → String
  | unterminatedString => "Unterminated string literal"
  | unterminatedCharacter => "Unterminated character literal"
  | unterminatedComment => "Unterminated block comment"
  | invalidEscape text => "Invalid escape sequence '" ++ text ++ "'"
  | invalidFormat text => "Invalid format sequence '" ++ text ++ "'"
  | missingModule => "Import path does not name a module"

end LexicalIssue

structure LexicalError where
  issue : LexicalIssue
  span : Span
  deriving DecidableEq

end UmkaSyntax
