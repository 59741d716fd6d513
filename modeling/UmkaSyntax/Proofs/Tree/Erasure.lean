import UmkaSyntax.Token.Vocabulary
import UmkaSyntax.Tree.SExpression

namespace UmkaSyntax

def TokenKind.lastingText : TokenKind → String → String
  | decNumber, _ | hexNumber, _ | realNumber, _ | unknown, _ => ""
  | name, text | keyword, text => ((Keyword.ofSpelling? text).map Keyword.spelling).getD ""
  | _, text => text

/-- The token without its place and trivia. Its text is kept in full unless it is `free`. -/
def Token.erased (free : Bool) (t : Token) : Token :=
  Token.bare t.kind (Span.emptyAt 0) (if free then t.kind.lastingText t.text else t.text)

mutual

/-- The tree without places, trivia, names and numbers. The name of a module belongs to a literal,
so it is kept. -/
def Node.erased : Node → Node
  | ⟨kind, _, children, fields⟩ =>
      ⟨kind, Span.emptyAt 0, Child.erasedAll (kind != .moduleRef) children, fields⟩

def Child.erased (free : Bool) : Child → Child
  | .token t => .token (t.erased free)
  | .node n => .node n.erased

def Child.erasedAll (free : Bool) : List Child → List Child
  | [] => []
  | child :: more => child.erased free :: Child.erasedAll free more

end

theorem Child.erasedAll_eq_map (free : Bool) (children : List Child) :
    Child.erasedAll free children = children.map (Child.erased free) := by
  induction children with
  | nil => rfl
  | cons child more ih => rw [Child.erasedAll, ih, List.map_cons]

@[simp] theorem Token.kind_erased (free : Bool) (t : Token) : (t.erased free).kind = t.kind := rfl

theorem Node.erased_ofChildren (kind : NodeKind) (children : List Child) (fields : List Field)
    (offset : Nat) : (Node.ofChildren kind children fields offset).erased =
      ⟨kind, Span.emptyAt 0, children.map (Child.erased (kind != .moduleRef)), fields⟩ := by
  simp only [Node.ofChildren, Node.erased, Child.erasedAll_eq_map]

mutual

theorem Node.writeSExpression_erased (n : Node) (after : List Char) :
    n.erased.writeSExpression after = n.writeSExpression after := by
  obtain ⟨kind, span, children, fields⟩ := n
  rw [Node.erased, Node.writeSExpression, Node.writeSExpression,
    Child.writeSExpressions_erased fields _ children]

theorem Child.writeSExpression_erased (label : List Char) (free : Bool) (child : Child)
    (after : List Char) :
    (child.erased free).writeSExpression label after = child.writeSExpression label after := by
  cases child with
  | token t => rfl
  | node n =>
      rw [Child.erased, Child.writeSExpression, Child.writeSExpression,
        Node.writeSExpression_erased n]

theorem Child.writeSExpressions_erased (fields : List Field) (free : Bool) (children : List Child)
    (index : Nat) (after : List Char) :
    Child.writeSExpressions fields index (Child.erasedAll free children) after =
      Child.writeSExpressions fields index children after := by
  cases children with
  | nil => rfl
  | cons child more =>
      rw [Child.erasedAll, Child.writeSExpressions, Child.writeSExpressions,
        Child.writeSExpressions_erased fields free more,
        Child.writeSExpression_erased _ free child]

end

theorem Node.sExpression_erased (n : Node) : n.erased.sExpression = n.sExpression := by
  rw [Node.sExpression, Node.writeSExpression_erased, Node.sExpression]

end UmkaSyntax
