import UmkaSyntax.Literal.Split
import UmkaSyntax.Parsing.OpenNode

namespace UmkaSyntax

/-- The innermost open node and those around it, out to the root. -/
structure Builder where
  top : OpenNode
  below : List OpenNode

namespace Builder

def depth (b : Builder) : Nat := b.below.length + 1

def mapTop (f : OpenNode → OpenNode) (b : Builder) : Builder := { b with top := f b.top }

def add (child : Child) : Builder → Builder := mapTop (OpenNode.add child)

def startNode (kind : NodeKind) (offset : Nat) (b : Builder) : Builder :=
  ⟨OpenNode.empty kind offset, b.top :: b.below⟩

def startAroundLast (kind : NodeKind) (offset : Nat) (b : Builder) : Builder :=
  let (rest, inner) := b.top.split (b.top.children.size - 1) kind offset
  ⟨inner, rest :: b.below⟩

/-- Closes the innermost node. The root stays open. -/
def close (b : Builder) : Builder :=
  match b.below with
  | [] => b
  | outer :: below => ⟨outer.add (.node b.top.toNode), below⟩

/-- Closes `top` and the nodes around it until `depth` are open. A node without children
disappears, and so does a name that still waits for its child. -/
def closeDown (depth : Nat) (top : OpenNode) : List OpenNode → Builder
  | [] => ⟨{ top with pending := none }, []⟩
  | outer :: below =>
      if below.length + 2 ≤ depth then ⟨{ top with pending := none }, outer :: below⟩
      else if top.children.isEmpty then closeDown depth outer below
      else closeDown depth (outer.add (.node top.toNode)) below

def closeTo (depth : Nat) (b : Builder) : Builder := closeDown depth b.top b.below

end Builder

def LiteralPiece.toChild : LiteralPiece → Child
  | .token t => .token t
  | .module name suffix =>
      .node (Node.ofChildren .moduleRef [.token name, .token suffix] [⟨.name, [0]⟩]
        name.span.start)

def LiteralParts.toNode (kind : NodeKind) (offset : Nat) (literal : LiteralParts) : Node :=
  Node.ofChildren kind (literal.pieces.map LiteralPiece.toChild) [] offset

end UmkaSyntax
