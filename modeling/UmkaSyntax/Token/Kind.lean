namespace UmkaSyntax

inductive Punct
  | equal | colonEqual | star | caret | dotDot | colonColon
  | leftBrace | rightBrace | leftParen | rightParen | leftBracket | rightBracket
  | colon | comma
  deriving DecidableEq

namespace Punct

def all : List Punct :=
  [equal, colonEqual, star, caret, dotDot, colonColon, leftBrace, rightBrace, leftParen,
    rightParen, leftBracket, rightBracket, colon, comma]

def spelling : Punct → String
  | equal => "="
  | colonEqual => ":="
  | star => "*"
  | caret => "^"
  | dotDot => ".."
  | colonColon => "::"
  | leftBrace => "\x7b"
  | rightBrace => "\x7d"
  | leftParen => "("
  | rightParen => ")"
  | leftBracket => "["
  | rightBracket => "]"
  | colon => ":"
  | comma => ","

def tag : Punct → String
  | equal => "Eq"
  | colonEqual => "ColonEq"
  | star => "Star"
  | caret => "Caret"
  | dotDot => "DotDot"
  | colonColon => "ColonColon"
  | leftBrace => "LBrace"
  | rightBrace => "RBrace"
  | leftParen => "LParen"
  | rightParen => "RParen"
  | leftBracket => "LBracket"
  | rightBracket => "RBracket"
  | colon => "Colon"
  | comma => "Comma"

def quoted (p : Punct) : String := "'" ++ p.spelling ++ "'"

def opens (p : Punct) : Bool := p == leftParen || p == leftBracket || p == leftBrace

def closes (p : Punct) : Bool := p == rightParen || p == rightBracket || p == rightBrace

end Punct

inductive TokenKind
  | decNumber | hexNumber | realNumber
  | string (terminated : Bool)
  /-- A character literal opens with an apostrophe and closes with a double quote. -/
  | character (terminated : Bool)
  | name
  | keyword
  /- Pieces of a literal. -/
  | quote | literalText | escape | format | moduleSuffix
  | punct (p : Punct)
  | semicolon | newline
  | unknown
  | endOfInput
  deriving DecidableEq

namespace TokenKind

/-- Every kind whose tag stands alone, that is all but the two literals. -/
def plain : List TokenKind :=
  [decNumber, hexNumber, realNumber, name, keyword, quote, literalText, escape, format,
    moduleSuffix, semicolon, newline, unknown, endOfInput] ++ Punct.all.map punct

def tag : TokenKind → String
  | decNumber => "DecNumber"
  | hexNumber => "HexNumber"
  | realNumber => "RealNumber"
  | string _ => "String"
  | character _ => "Char"
  | name => "Ident"
  | keyword => "Keyword"
  | quote => "Quote"
  | literalText => "StrText"
  | escape => "EscSeq"
  | format => "FmtSeq"
  | moduleSuffix => "ModSuffix"
  | punct p => p.tag
  | semicolon => "Semi"
  | newline => "Newline"
  | unknown => "Unknown"
  | endOfInput => "Eof"

def ofPlainTag? (tag : String) : Option TokenKind := plain.find? (·.tag == tag)

def terminated? : TokenKind → Option Bool
  | string closed | character closed => some closed
  | _ => none

def listing (kind : TokenKind) : String :=
  match kind.terminated? with
  | none => kind.tag
  | some closed => kind.tag ++ " \x7b terminated: " ++ toString closed ++ " \x7d"

def description : TokenKind → String
  | decNumber | hexNumber | realNumber => "a number"
  | string _ => "a string"
  | character _ => "a character"
  | name => "a name"
  | keyword => "a keyword"
  | quote => "a quote"
  | literalText => "string text"
  | escape => "an escape sequence"
  | format => "a format sequence"
  | moduleSuffix => "'.um'"
  | punct p => p.quoted
  | semicolon => "';'"
  | newline => "end of line"
  | unknown => "an unexpected character"
  | endOfInput => "end of file"

def isTerminator (kind : TokenKind) : Bool := kind == semicolon || kind == newline

def isLiteral (kind : TokenKind) : Bool := kind.terminated?.isSome

end TokenKind

end UmkaSyntax
