import UmkaSyntax.Error.Syntax

namespace UmkaSyntax.ErrorKind

def code : ErrorKind → String
  | lexical .unterminatedLiteral => "E0001"
  | lexical .unterminatedComment => "E0002"
  | lexical .invalidEscape => "E0003"
  | lexical .invalidFormat => "E0004"
  | lexical .missingModule => "E0005"
  | syntactic => "E0100"
  | unexpectedEnd => "E0101"

def ofCode? (code : String) : Option ErrorKind := all.find? (·.code == code)

def title : ErrorKind → String
  | lexical kind => kind.title
  | syntactic => "syntax error"
  | unexpectedEnd => "unexpected end of file"

def category : ErrorKind → String
  | lexical _ => "Lexical"
  | _ => "Syntax"

def explanation : ErrorKind → String
  | lexical .unterminatedLiteral =>
      "A string or character literal reached the end of the line or file before its closing " ++
        "'\"'. Character literals also close with '\"'."
  | lexical .unterminatedComment =>
      "A '/*' comment has no matching '*/'. The comment runs to the end of the file."
  | lexical .invalidEscape =>
      "A backslash in a plain string must start a known escape or '\\x' with one or two hex digits."
  | lexical .invalidFormat =>
      "A '%' in a format string must be '%%' or a conversion like '%d' or '%6.2f'."
  | lexical .missingModule =>
      "An import path must name a module file, for example \"utils.um\"."
  | syntactic =>
      "The parser found a token it did not expect here. The surrounding declaration or " ++
        "statement is kept as an ERROR node and parsing continues."
  | unexpectedEnd =>
      "The file ended in the middle of a declaration, usually because of an unclosed '\x7b', " ++
        "'(' or '['."

end UmkaSyntax.ErrorKind
