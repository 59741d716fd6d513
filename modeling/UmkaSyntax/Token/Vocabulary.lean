namespace UmkaSyntax

inductive Keyword
  | imports | const | var | type | fn | weak | map | struct | enum | interface
  deriving DecidableEq

namespace Keyword

def all : List Keyword := [imports, const, var, type, fn, weak, map, struct, enum, interface]

def spelling : Keyword → String
  | imports => "import"
  | const => "const"
  | var => "var"
  | type => "type"
  | fn => "fn"
  | weak => "weak"
  | map => "map"
  | struct => "struct"
  | enum => "enum"
  | interface => "interface"

def ofSpelling? (word : String) : Option Keyword := all.find? (·.spelling == word)

def opensDeclaration : Keyword → Bool
  | imports | const | var | type | fn => true
  | _ => false

def declarations : List Keyword := all.filter opensDeclaration

end Keyword

/-- What a call of a built-in function takes as arguments. -/
inductive BuiltinFamily
  | format
  | make
  | singleType
  | basic
  deriving DecidableEq

namespace BuiltinFamily

def all : List BuiltinFamily := [format, make, singleType, basic]

def tag : BuiltinFamily → String
  | format => "Format"
  | make => "Make"
  | singleType => "SingleType"
  | basic => "Basic"

def names : BuiltinFamily → List String
  | format => ["printf", "sprintf", "fprintf", "scanf", "sscanf", "fscanf"]
  | make => ["make"]
  | singleType => ["new", "sizeof", "typeptr"]
  | basic =>
      ["append", "atan", "atan2", "cap", "ceil", "copy", "cos", "delete", "exit", "exp", "fabs",
        "fiberalive", "fibercall", "fiberspawn", "floor", "insert", "keys", "len", "log",
        "memusage", "round", "selfhasptr", "selftypeeq", "sin", "sizeofself", "slice", "sqrt",
        "trunc", "valid", "validkey"]

def ofName? (name : String) : Option BuiltinFamily := all.find? (·.names.contains name)

end BuiltinFamily

end UmkaSyntax
