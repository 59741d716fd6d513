import UmkaSyntax.Proofs.Tree.Part

/-!
The grammar as a description of trees. A form says which sequences of parts may stand side by side,
`production` gives every kind of node the form of its children, and `Entry.form` that of the root.
Nothing here mentions how such trees are found.
-/

namespace UmkaSyntax

def NodeKind.splits (kind : NodeKind) : TokenKind → Bool
  | .string _ => kind == .stringLiteral || kind == .formatLiteral || kind == .pathLiteral
  | .character _ => kind == .charLiteral
  | _ => false

inductive Symbol
  | token (kind : TokenKind)
  | keyword (k : Keyword)
  | builtin (family : BuiltinFamily)
  | literal (kind : NodeKind)
  | node (kind : NodeKind)
  /-- A token outside of the grammar. Literals are split even there. -/
  | raw
  deriving DecidableEq

def Symbol.Fits : Symbol → Part → Prop
  | token kind, .token _ t => t.kind = kind
  | keyword k, .keyword _ t => t.kind = .name ∧ Keyword.ofSpelling? t.text = some k
  | builtin family, .token _ t => t.kind = .name ∧ BuiltinFamily.ofName? t.text = some family
  | literal kind, .literal _ kind' t => kind' = kind ∧ kind.splits t.kind = true
  | node kind, .node _ kind' whole _ => kind' = kind ∧ whole = true
  | raw, .token _ t => t.kind.isLiteral = false ∧ t.kind ≠ .endOfInput
  | raw, .literal _ kind t =>
      (kind = .stringLiteral ∨ kind = .charLiteral) ∧ kind.splits t.kind = true
  | _, _ => False

theorem Symbol.Fits.splits {symbol : Symbol} {label : Option FieldName} {kind : NodeKind} {t : Token}
    (fits : symbol.Fits (.literal label kind t)) : kind.splits t.kind = true := by
  cases symbol with
  | literal kind' =>
      obtain ⟨rfl, splits⟩ := fits
      exact splits
  | raw => exact fits.2
  | token | keyword | builtin | node => exact fits.elim

inductive Form
  | nothing
  | empty
  | one (label : Option FieldName) (symbols : List Symbol)
  | run (kinds : List TokenKind)
  /-- The end of an item: all terminators that there are, or none in front of a closing token. -/
  | ending
  | seq (first second : Form)
  | alt (left right : Form)
  | many (item : Form)
  /-- Items with commas between them. In front of some tokens the list may have no item, or end
  behind a comma. The two gaps go before and after each comma. -/
  | list (ends : Option (TokenKind → Bool)) (item before after : Form)
  | attempt (form : Form)
  | whenBroken (form : Form)

abbrev Phrases := List Part → TokenKind → Prop

def TokenKind.isClosing (kind : TokenKind) : Bool :=
  kind == .punct .rightBrace || kind == .punct .rightParen || kind == .endOfInput

namespace Phrases
open UmkaSyntax.Part

inductive Many (phrases : Phrases) : Phrases
  | nil (next : TokenKind) : Many phrases [] next
  | cons {first more : List Part} {next : TokenKind} : phrases first (firstKind more next) →
      Many phrases more next → Many phrases (first ++ more) next

inductive Listed (ends : Option (TokenKind → Bool)) (item before after : Phrases) : Phrases
  | stop {next : TokenKind} (test : TokenKind → Bool) : ends = some test → test next = true →
      Listed ends item before after [] next
  | last {parts gap : List Part} {next : TokenKind} : item parts (firstKind gap next) →
      before gap next → Listed ends item before after (parts ++ gap) next
  | more {parts gap space rest : List Part} {comma : Token} {next : TokenKind} :
      comma.kind = .punct .comma → item parts (firstKind gap (.punct .comma)) →
      before gap (.punct .comma) → after space (firstKind rest next) →
      Listed ends item before after rest next →
      Listed ends item before after (parts ++ (gap ++ .token none comma :: (space ++ rest))) next

/-- The parts begin a phrase; the last of them may itself lack its end. -/
def Unfinished (phrases : Phrases) (parts : List Part) : Prop :=
  ∃ more next, phrases (parts ++ more) next ∨
    ∃ before last, parts = before ++ [last] ∧ phrases (before ++ last.mended :: more) next

end Phrases

namespace Form
open UmkaSyntax.Part

/-- The sequences of parts of a form. Trees are broken where errors were found in them. -/
def Sentence (broken : Prop) : Form → Phrases
  | nothing, _, _ => False
  | empty, parts, _ => parts = []
  | one label symbols, parts, _ =>
      ∃ part, parts = [part] ∧ part.label = label ∧ ∃ symbol ∈ symbols, symbol.Fits part
  | run kinds, parts, next =>
      (∀ part ∈ parts, ∃ t, part = .token none t ∧ t.kind ∈ kinds) ∧ next ∉ kinds
  | ending, parts, next =>
      (∀ part ∈ parts, ∃ t, part = .token none t ∧ t.kind.isTerminator = true) ∧
        next.isTerminator = false ∧ (parts = [] → next.isClosing = true)
  | seq first second, parts, next =>
      ∃ left right, parts = left ++ right ∧ first.Sentence broken left (firstKind right next) ∧
        second.Sentence broken right next
  | alt left right, parts, next => left.Sentence broken parts next ∨ right.Sentence broken parts next
  | many item, parts, next => (item.Sentence broken).Many parts next
  | list ends item before after, parts, next => Phrases.Listed ends (item.Sentence broken)
      (before.Sentence broken) (after.Sentence broken) parts next
  | attempt form, parts, next =>
      form.Sentence broken parts next ∨ broken ∧ (form.Sentence broken).Unfinished parts
  | whenBroken form, parts, next => broken ∧ form.Sentence broken parts next

def inOrder : List Form → Form
  | [] => empty
  | [form] => form
  | form :: more => seq form (inOrder more)

def anyOf : List Form → Form
  | [] => nothing
  | [form] => form
  | form :: more => alt form (anyOf more)

def optional (form : Form) : Form := alt form empty

def punct (p : Punct) : Form := one none [.token (.punct p)]

def name (label : Option FieldName) : Form := one label [.token .name]

def keyword (k : Keyword) : Form := one none [.keyword k]

def node (label : Option FieldName) (kind : NodeKind) : Form := one label [.node kind]

def terminators : Form := run [.semicolon, .newline]

def newlines : Form := run [.newline]

def commaList (item : Form) : Form := list none item empty empty

def skipped : Form := whenBroken (node none .error)

def tried (form : Form) : Form := seq (attempt form) (optional skipped)

def items (item : Form) : Form :=
  many (alt (one none [.token .semicolon, .token .newline]) (tried item))

end Form

namespace Category

def symbols : Category → List Symbol
  | type =>
      [.node .ptrType, .node .dynArrayType, .node .arrayType, .node .enumType, .node .structType,
        .node .interfaceType, .node .mapType, .node .closureType, .node .qualifiedName]
  | expression =>
      [.literal .stringLiteral, .literal .charLiteral, .node .decNumber, .node .hexNumber,
        .node .realNumber, .node .primary, .node .arrayLiteral, .node .mapLiteral]
  | block => [.node .block]

def form (category : Category) (label : Option FieldName) : Form := .one label category.symbols

end Category

namespace Form

def type (label : Option FieldName) : Form := Category.type.form label

def expression (label : Option FieldName) : Form := Category.expression.form label

def exportMark : Form := optional (one (some .exported) [.token (.punct .star)])

def grouped (k : Keyword) (item : NodeKind) : Form :=
  seq (keyword k) <| alt
    (inOrder [punct .leftParen, items (node none item), punct .rightParen, ending]) (node none item)

def braced (k : Keyword) (item : Form) : Form :=
  inOrder [keyword k, punct .leftBrace, items item, punct .rightBrace]

def shortDecl : Form :=
  inOrder [node (some .identifiers) .nameList, punct .colonEqual, node (some .values) .exprList,
    ending]

def function : Form :=
  inOrder [name (some .name), exportMark, node (some .signature) .signature,
    optional (Category.block.form (some .body)), ending]

def builtinArguments : BuiltinFamily → Form
  | .format => inOrder [one (some .arguments) [.literal .formatLiteral],
      optional (inOrder [punct .comma, commaList (expression (some .arguments))])]
  | .make => inOrder [type (some .arguments), punct .comma, expression (some .arguments)]
  | .singleType => type (some .arguments)
  | .basic => commaList (expression (some .arguments))

def builtinCall (family : BuiltinFamily) : Form :=
  inOrder [one (some .name) [.builtin family], punct .leftParen, builtinArguments family,
    punct .rightParen]

def moreItems (item : Form) : Form :=
  optional <| inOrder
    [punct .comma, terminators, list (some (· == .punct .rightBrace)) item empty terminators]

def declarations : List Symbol :=
  [.node .constDecl, .node .varDecl, .node .typeDecl, .node .methodDecl, .node .fnDecl,
    .node .shortVarDecl]

def declaration : Form := alt skipped (one none declarations)

def statements : List Symbol :=
  [.node .constDecl, .node .varDecl, .node .typeDecl, .node .methodDecl, .node .fnDecl, .node .block,
    .node .declAssignment]

def statement : Form := alt (one none statements) (inOrder [node none .callStmt, ending])

end Form

open Form in
/-- The children of a node inside the tree, by its kind. -/
def production : NodeKind → Form
  | .imports => grouped .imports .importItem
  | .importItem => inOrder [alt
      (inOrder [name (some .name), punct .equal, one none [.literal .stringLiteral]])
      (one none [.literal .pathLiteral]), ending]
  | .constDecl => grouped .const .constItem
  | .constItem => inOrder
      [name (some .name), exportMark, punct .equal, expression (some .value), ending]
  | .varDecl => grouped .var .varItem
  | .varItem => inOrder
      [node (some .identifiers) .typedNameList,
        optional (inOrder [punct .equal, expression (some .value)]), ending]
  | .typeDecl => grouped .type .typeItem
  | .typeItem => inOrder
      [name (some .name), exportMark, punct .equal, type (some .type), ending]
  | .shortVarDecl | .declAssignment => shortDecl
  | .fnDecl => inOrder [keyword .fn, function]
  | .methodDecl => inOrder [keyword .fn, node (some .receiver) .receiver, function]
  | .receiver => inOrder
      [punct .leftParen, name (some .name), punct .colon, type (some .type), punct .rightParen]
  | .signature => inOrder
      [node none .parameterList, optional (inOrder [punct .colon, type (some .type)])]
  | .parameterList => inOrder
      [punct .leftParen, newlines,
        list (some (· != .name))
          (inOrder [node (some .params) .typedNameList,
            optional (inOrder [punct .equal, expression (some .defaultValue)])])
          newlines newlines,
        punct .rightParen]
  | .nameList => commaList (inOrder [name none, exportMark])
  | .typedNameList => inOrder
      [node none .nameList, punct .colon, optional (punct .dotDot), type none]
  | .exprList => commaList (expression none)
  | .block => inOrder [punct .leftBrace, items statement, punct .rightBrace]
  | .callStmt => inOrder
      [node (some .designator) .primary, optional (node (some .arguments) .arguments)]
  | .arguments => inOrder
      [punct .leftParen, list (some (· == .punct .rightParen)) (expression none) empty empty,
        punct .rightParen]
  | .qualifiedName => alt
      (inOrder [name (some .module), punct .colonColon, name (some .name)]) (name (some .name))
  | .ptrType => inOrder [optional (keyword .weak), punct .caret, type none]
  | .arrayType => inOrder [punct .leftBracket, expression none, punct .rightBracket, type none]
  | .dynArrayType => inOrder [punct .leftBracket, punct .rightBracket, type none]
  | .mapType => inOrder
      [keyword .map, punct .leftBracket, type none, punct .rightBracket, type none]
  | .enumType => braced .enum (node none .enumItem)
  | .enumItem => inOrder [name (some .name), ending]
  | .structType => braced .struct (inOrder [node none .typedNameList, ending])
  | .interfaceType => braced .interface (inOrder [node none .interfaceItem, ending])
  | .interfaceItem => alt
      (inOrder [name (some .name), node (some .signature) .signature]) (name (some .type))
  | .closureType => inOrder [keyword .fn, node (some .signature) .signature]
  | .primary => one none [.node .builtinCall, .node .qualifiedName]
  | .builtinCall => anyOf (BuiltinFamily.all.map builtinCall)
  | .arrayLiteral => inOrder
      [punct .leftBrace, terminators,
        optional (inOrder [expression none, moreItems (expression none), terminators]),
        punct .rightBrace]
  | .mapLiteral => inOrder
      [punct .leftBrace, terminators, node none .mapEntry, moreItems (node none .mapEntry),
        terminators, punct .rightBrace]
  | .mapEntry => inOrder
      [expression (some .key), punct .colon, terminators, expression (some .value)]
  | .decNumber => one none [.token .decNumber]
  | .hexNumber => one none [.token .hexNumber]
  | .realNumber => one none [.token .realNumber]
  | .error => alt (node none .imports) (seq (one none [.raw]) (many (one none [.raw])))
  -- the root and the literals are not nodes of parts
  | .program | .fragment | .stringLiteral | .formatLiteral | .pathLiteral | .charLiteral
  | .moduleRef => nothing

namespace Form

def program : Form :=
  inOrder [terminators, optional (tried (node none .imports)), items declaration]

def fragment (category : Category) : Form :=
  inOrder [terminators, attempt (category.form none), terminators, optional skipped]

end Form

namespace Entry

def body : Entry → Form
  | program => .program
  | type => .fragment .type
  | expression => .fragment .expression

def form (entry : Entry) : Form := .seq entry.body (.one none [.token .endOfInput])

end Entry

end UmkaSyntax
