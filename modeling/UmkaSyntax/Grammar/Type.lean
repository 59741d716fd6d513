import UmkaSyntax.Grammar.Rule

/-!
Types, signatures and lists of names. A keyword opens a type only in front of the token that such a
type goes on with; elsewhere it is an ordinary name.
-/

namespace UmkaSyntax.Grammar
open Rule

def qualifiedName : Rule :=
  .node .qualifiedName <| inOrder
    [name, optional (.punct .colonColon) (inOrder [.label .module, .take, name]), .label .name]

def nameList : Rule :=
  .node .nameList <| commaList <|
    inOrder [name, optional (.punct .star) (inOrder [.take, .label .exported])]

/-- `a, b: T` or `a: ..T`. -/
def typedNameList : Rule :=
  .node .typedNameList <| inOrder [nameList, expect .colon, accept .dotDot, type]

/-- `a, b: T = value`. -/
def parameter : Rule :=
  inOrder [.labelNext .params, typedNameList,
    optional (.punct .equal) (inOrder [.take, .labelNext .defaultValue, expression])]

/-- Newlines may follow `(`, stand around commas, and precede `)`. -/
def parameterList : Rule :=
  .node .parameterList <| inOrder
    [expect .leftParen, newlines, .separated .name parameter newlines newlines, expect .rightParen]

def signature : Rule :=
  .node .signature <| inOrder
    [parameterList, optional (.punct .colon) (inOrder [.take, .labelNext .type, type])]

def ptrType : Rule :=
  .node .ptrType <| inOrder [optional .name .takeKeyword, expect .caret, type]

def arrayType : Rule :=
  .node .arrayType <| inOrder [.take, expression, expect .rightBracket, type]

def dynArrayType : Rule := .node .dynArrayType <| inOrder [.take, .take, type]

def mapType : Rule :=
  .node .mapType <| inOrder [.takeKeyword, expect .leftBracket, type, expect .rightBracket, type]

def bracedType (kind : NodeKind) (item : Rule) : Rule :=
  .node kind <| inOrder
    [.takeKeyword, .take, .items (.punct .rightBrace) .block item, expect .rightBrace]

def enumType : Rule :=
  bracedType .enumType <| .node .enumItem <| inOrder [name, .label .name, terminator]

def structType : Rule := bracedType .structType <| inOrder [typedNameList, terminator]

def interfaceItem : Rule :=
  .node .interfaceItem <| inOrder
    [name, .branch (.punct .leftParen) (inOrder [.label .name, .labelNext .signature, signature])
      (.label .type)]

def interfaceType : Rule := bracedType .interfaceType <| inOrder [interfaceItem, terminator]

def closureType : Rule :=
  .node .closureType <| inOrder [.takeKeyword, .labelNext .signature, signature]

def opensWith (keyword : Keyword) (p : Punct) : Look := .both (.keyword keyword) (.next (.punct p))

def typeRule : Rule :=
  choose
    [(.punct .caret, ptrType),
      (.both (.punct .leftBracket) (.next (.punct .rightBracket)), dynArrayType),
      (.punct .leftBracket, arrayType),
      (opensWith .weak .caret, ptrType),
      (opensWith .enum .leftBrace, enumType),
      (opensWith .struct .leftBrace, structType),
      (opensWith .interface .leftBrace, interfaceType),
      (opensWith .map .leftBracket, mapType),
      (opensWith .fn .leftParen, closureType),
      (.name, qualifiedName)]
    (.fail (.expected .type))

end UmkaSyntax.Grammar
