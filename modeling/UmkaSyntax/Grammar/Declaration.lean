import UmkaSyntax.Grammar.Expression

namespace UmkaSyntax.Grammar
open Rule

def grouped (kind : NodeKind) (item : Rule) : Rule :=
  .node kind <| inOrder
    [.takeKeyword,
      .branch (.punct .leftParen)
        (inOrder [.take, .items (.punct .rightParen) .group item, expect .rightParen, terminator])
        item]

def exportMark : Rule := optional (.punct .star) (inOrder [.take, .label .exported])

/-- `"path.um"` or `name = "path"`. -/
def importItem : Rule :=
  .node .importItem <| inOrder
    [.branch .name (inOrder [.take, .label .name, expect .equal, stringLiteral .plain])
      (stringLiteral .path), terminator]

def imports : Rule := grouped .imports importItem

def constItem : Rule :=
  .node .constItem <| inOrder
    [name, .label .name, exportMark, expect .equal, .labelNext .value, expression, terminator]

/-- `a, b: T = value`. -/
def varItem : Rule :=
  .node .varItem <| inOrder
    [.labelNext .identifiers, typedNameList,
      optional (.punct .equal) (inOrder [.take, .labelNext .value, expression]), terminator]

def typeItem : Rule :=
  .node .typeItem <| inOrder
    [name, .label .name, exportMark, expect .equal, .labelNext .type, type, terminator]

def constDecl : Rule := grouped .constDecl constItem

def varDecl : Rule := grouped .varDecl varItem

def typeDecl : Rule := grouped .typeDecl typeItem

def shortDecl (kind : NodeKind) : Rule :=
  .node kind <| inOrder
    [.labelNext .identifiers, nameList, expect .colonEqual, .labelNext .values, exprList,
      terminator]

def receiver : Rule :=
  .node .receiver <| inOrder
    [.take, name, .label .name, expect .colon, .labelNext .type, type, expect .rightParen]

/-- A function without a body is defined elsewhere. -/
def fnDecl : Rule :=
  .node .fnDecl <| inOrder
    [.takeKeyword,
      optional (.punct .leftParen)
        (inOrder [.retag .methodDecl, .labelNext .receiver, receiver]),
      name, .label .name, exportMark, .labelNext .signature, signature,
      optional (.punct .leftBrace) (inOrder [.labelNext .body, block]), terminator]

/-- An import after the first declaration: reported, and kept whole. -/
def misplacedImport : Rule :=
  inOrder [.report (.misplacedImport .declaration), .node .error imports]

def declaration : Rule :=
  inOrder [.announce,
    choose
      [(.keyword .imports, misplacedImport),
        (.keyword .const, constDecl),
        (.keyword .var, varDecl),
        (.keyword .type, typeDecl),
        (.keyword .fn, fnDecl),
        (.name, shortDecl .shortVarDecl)]
      (.fail (.expected .declaration))]

def arguments : Rule :=
  .node .arguments <| inOrder
    [.take, .separated (.not (.punct .rightParen)) expression done done, expect .rightParen]

def callStmt : Rule :=
  .node .callStmt <| inOrder
    [.labelNext .designator, primary,
      optional (.punct .leftParen) (inOrder [.labelNext .arguments, arguments])]

/-- `a :=`, `a, ` or one of them after a star. -/
def opensAssignment : Look :=
  let follows := Look.either (.punct .colonEqual) (.punct .comma)
  .both .name (.next (.either follows (.both (.punct .star) (.next follows))))

def statement : Rule :=
  choose
    [(.keyword .const, constDecl),
      (.keyword .var, varDecl),
      (.keyword .type, typeDecl),
      (.keyword .fn, fnDecl),
      (.keyword .imports, .fail (.misplacedImport .statement)),
      (.punct .leftBrace, block),
      (opensAssignment, shortDecl .declAssignment),
      (.name, inOrder [callStmt, terminator])]
    (.fail (.expected .statement))

def blockRule : Rule :=
  .node .block <| inOrder
    [expect .leftBrace, .items (.punct .rightBrace) .block statement, expect .rightBrace]

def program : Rule :=
  inOrder [terminators, optional (.keyword .imports) (.recovering .topLevel imports),
    .items .atEnd .topLevel declaration]

def categoryRule : Category → Rule
  | .type => typeRule
  | .expression => expressionRule
  | .block => blockRule

end UmkaSyntax.Grammar
