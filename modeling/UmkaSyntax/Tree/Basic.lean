import UmkaSyntax.Token.Basic
import UmkaSyntax.Tree.Kind

/-!
Concrete syntax trees. Every token of a source is a child of some node, so the tokens of the root
spell the source. A node's fields name some of its children by their indices.
-/

namespace UmkaSyntax

structure Field where
  name : FieldName
  children : List Nat
  deriving DecidableEq

def Field.nameAt? (fields : List Field) (index : Nat) : Option FieldName :=
  (fields.find? (·.children.contains index)).map (·.name)

mutual

structure Node where
  kind : NodeKind
  span : Span
  children : List Child
  fields : List Field

inductive Child
  | token (t : Token)
  | node (n : Node)

end

namespace Child

def span : Child → Span
  | token t => t.span
  | node n => n.span

def token? : Child → Option Token
  | token t => some t
  | node _ => none

def node? : Child → Option Node
  | node n => some n
  | token _ => none

end Child

mutual

def Node.tokens : Node → List Token
  | ⟨_, _, children, _⟩ => Child.tokensOf children

def Child.tokens : Child → List Token
  | .token t => [t]
  | .node n => n.tokens

def Child.tokensOf : List Child → List Token
  | [] => []
  | child :: more => child.tokens ++ Child.tokensOf more

end

namespace Node

/-- A node around the children. Its span covers them all; without children it is empty and lies at
`offset`. -/
def ofChildren (kind : NodeKind) (children : List Child) (fields : List Field) (offset : Nat) :
    Node where
  kind := kind
  span := match children with
    | [] => Span.emptyAt offset
    | first :: more => more.foldl (fun span child => span.cover child.span) first.span
  children := children
  fields := fields

def nodeChildren (n : Node) : List Node := n.children.filterMap Child.node?

def tokenChildren (n : Node) : List Token := n.children.filterMap Child.token?

/-- The children of a field. Indices out of range name nothing. -/
def field (n : Node) (wanted : FieldName) : List Child :=
  ((n.fields.filter (·.name == wanted)).flatMap (·.children)).filterMap (n.children[·]?)

def firstOf? (n : Node) (wanted : FieldName) : Option Child := (n.field wanted).head?

def firstNodeOf? (n : Node) (wanted : FieldName) : Option Node :=
  (n.field wanted).findSome? Child.node?

def firstTokenOf? (n : Node) (wanted : FieldName) : Option Token :=
  (n.field wanted).findSome? Child.token?

def fieldAt? (n : Node) (index : Nat) : Option FieldName := Field.nameAt? n.fields index

def sourceText (n : Node) : String := String.join (n.tokens.map Token.sourceText)

def textAfter (t : Token) : List Token → String
  | [] => ""
  | next :: more =>
      String.join (t.trailing.map (·.text)) ++ String.join (next.leading.map (·.text)) ++
        next.text ++ textAfter next more

/-- The source text of a node without the trivia at its two ends. -/
def text (n : Node) : String :=
  match n.tokens with
  | [] => ""
  | first :: more => first.text ++ textAfter first more

end Node

def Child.text : Child → String
  | token t => t.text
  | node n => n.text

end UmkaSyntax
