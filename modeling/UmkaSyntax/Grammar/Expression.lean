import UmkaSyntax.Grammar.Type

namespace UmkaSyntax.Grammar
open Rule

def stringKind : Flavor → NodeKind
  | .plain => .stringLiteral
  | .format => .formatLiteral
  | .path => .pathLiteral

def stringNeed : Flavor → Expected
  | .plain => .string
  | .format => .formatString
  | .path => .importPath

def stringLiteral (flavor : Flavor) : Rule :=
  .branch .string (.literal (stringKind flavor) flavor) (.fail (.expected (stringNeed flavor)))

def number (kind : NodeKind) : Rule := .node kind .take

def argument : Rule := inOrder [.labelNext .arguments, expression]

def builtinArguments : BuiltinFamily → Rule
  | .format => inOrder [.labelNext .arguments, stringLiteral .format,
      optional (.punct .comma) (inOrder [.take, commaList argument])]
  | .make => inOrder [.labelNext .arguments, type, expect .comma, argument]
  | .singleType => inOrder [.labelNext .arguments, type]
  | .basic => commaList argument

def builtinCall (family : BuiltinFamily) : Rule :=
  .node .builtinCall <| inOrder
    [.take, .label .name, expect .leftParen, builtinArguments family, expect .rightParen]

/-- A qualified name, or a call if the name is built in and a parenthesis follows. -/
def primary : Rule :=
  .node .primary <| choose
    (BuiltinFamily.all.map fun family =>
      (.both (.builtin family) (.next (.punct .leftParen)), builtinCall family))
    qualifiedName

def mapValue : Rule := inOrder [expect .colon, terminators, .labelNext .value, expression]

def mapEntry : Rule := .node .mapEntry <| inOrder [.labelNext .key, expression, mapValue]

/-- The items after the first one. A comma may be the last thing before the brace. -/
def moreItems (item : Rule) : Rule :=
  optional (.punct .comma) <| inOrder
    [.take, terminators, .separated (.not (.punct .rightBrace)) item done terminators]

/-- A map literal if the first item is a key, and an array literal if it is not. -/
def braceItems : Rule :=
  inOrder [expression,
    .branch (.punct .colon)
      (inOrder [.retag .mapLiteral, .wrapLast .mapEntry (inOrder [.label .key, mapValue]),
        moreItems mapEntry])
      (moreItems expression),
    terminators]

def braceLiteral : Rule :=
  .node .arrayLiteral <| inOrder
    [.take, terminators, optional (.not (.punct .rightBrace)) braceItems, expect .rightBrace]

def expressionRule : Rule :=
  choose
    [(.string, stringLiteral .plain),
      (.character, .literal .charLiteral .plain),
      (.kind .decNumber, number .decNumber),
      (.kind .hexNumber, number .hexNumber),
      (.kind .realNumber, number .realNumber),
      (.name, primary),
      (.punct .leftBrace, braceLiteral)]
    (.fail (.expected .expression))

def exprList : Rule := .node .exprList <| commaList expression

end UmkaSyntax.Grammar
