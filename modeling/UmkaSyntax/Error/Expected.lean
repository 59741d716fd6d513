import UmkaSyntax.Token.Basic

namespace UmkaSyntax

inductive Expected
  | punct (p : Punct)
  | terminator | name | expression
  | string | formatString | importPath
  | type | declaration | statement
  deriving DecidableEq

namespace Expected

def all : List Expected :=
  [terminator, name, expression, string, formatString, importPath, type, declaration, statement] ++
    Punct.all.map punct

def phrase : Expected → String
  | punct p => p.quoted
  | terminator => "newline or ';'"
  | name => "a name"
  | expression => "expression"
  | string => "a string"
  | formatString => "a format string"
  | importPath => "an import path"
  | type => "type"
  | declaration => "declaration"
  | statement => "statement"

def ofPhrase? (phrase : String) : Option Expected := all.find? (·.phrase == phrase)

def noun : Expected → String
  | terminator => "';' or newline"
  | name => "name"
  | expected => expected.phrase

def opening? : Expected → Option Punct
  | punct .rightBrace => some .leftBrace
  | punct .rightParen => some .leftParen
  | punct .rightBracket => some .leftBracket
  | _ => none

def describe (found : Token) : String :=
  if found.kind = .name then "'" ++ found.text ++ "'" else found.kind.description

def message (expected : Expected) (found : Token) : String :=
  match expected.opening?, found.kind with
  | some opening, .endOfInput =>
      "Unclosed " ++ opening.quoted ++ " - missing " ++ expected.phrase
  | _, .unknown => "Unexpected character '" ++ found.text ++ "'"
  | _, _ => "Expected " ++ expected.noun ++ ", found " ++ describe found

def hint? : Expected → TokenKind → Option String
  | terminator, _ => some "end declarations and statements with a newline or ';'"
  | punct .colon, .punct .equal => some "use ':' for types, '=' for values"
  | punct .colon, _ => some "syntax: name: Type"
  | punct .colonEqual, .punct .equal =>
      some "top-level declarations use ':=', or 'var name: Type = value'"
  | punct .colonEqual, _ => some "syntax: name := value"
  | punct .equal, _ => some "put '=' between the name and the value"
  | punct .leftBrace, _ => some "bodies start with '\x7b'"
  | punct .rightBrace, _ => some "every '\x7b' needs a matching '\x7d'"
  | punct .leftParen, _ => some "parameter lists start with '('"
  | punct .rightParen, .endOfInput => some "add ')' to close the parenthesis"
  | punct .leftBracket, _ => some "map types look like 'map[Key]Value'"
  | punct .rightBracket, .endOfInput => some "add ']' to close the bracket"
  | punct _, _ => none
  | expression, .punct .equal => some "put the value after '='"
  | expression, .semicolon | expression, .newline => some "the value is missing"
  | expression, _ =>
      some "try a number, a string, a name, a builtin call or a '\x7b...\x7d' literal"
  | name, .decNumber | name, .hexNumber | name, .realNumber =>
      some "names can't start with a number"
  | name, _ => some "names start with a letter or '_'"
  | string, _ => some "expected a quoted string like \"example\""
  | formatString, _ =>
      some "formatted I/O builtins take a format string first, like \"%d\\n\""
  | importPath, _ => some "import a module file like \"utils.um\""
  | type, _ => some "try a type name, '^T', '[]T', 'map[K]V' or 'struct \x7b ... \x7d'"
  | declaration, _ => some "start with 'fn', 'var', 'const', 'type' or 'name := value'"
  | statement, _ => some "statements are calls, blocks and declarations"

end Expected

end UmkaSyntax
