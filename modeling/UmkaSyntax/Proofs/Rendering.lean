import UmkaSyntax.Proofs.Error.Order
import UmkaSyntax.Proofs.Tree.Leaves
import UmkaSyntax.Proofs.Tree.Preorder

namespace UmkaSyntax
open UmkaSyntax.Part

def NodeKind.isLiteral (kind : NodeKind) : Bool :=
  kind == .stringLiteral || kind == .formatLiteral || kind == .pathLiteral || kind == .charLiteral

def Node.literals (n : Node) : List Node := n.preorder.filter (·.kind.isLiteral)

def Part.literalNode? : Part → Option Node
  | literal _ kind t => some ((LiteralParts.ofToken kind.flavor t).toNode kind t.span.start)
  | _ => none

theorem Node.literals_eq (n : Node) :
    n.literals = (if n.kind.isLiteral then [n] else []) ++ n.nodeChildren.flatMap literals := by
  have inside : (n.nodeChildren.flatMap preorder).filter (·.kind.isLiteral) =
      n.nodeChildren.flatMap literals := by
    rw [List.filter_flatMap]
    rfl
  rw [literals, preorder_eq, List.filter_cons, inside]
  split <;> simp_all

theorem literals_literal {kind : NodeKind} {t : Token} (splits : kind.splits t.kind = true) :
    ((LiteralParts.ofToken kind.flavor t).toNode kind t.span.start).literals =
      [(LiteralParts.ofToken kind.flavor t).toNode kind t.span.start] := by
  have own : ((LiteralParts.ofToken kind.flavor t).toNode kind t.span.start).kind = kind := by
    rw [LiteralParts.toNode, Node.ofChildren.eq_def]
  have isLiteral : kind.isLiteral = true := by
    revert splits
    cases t.kind <;> grind [NodeKind.splits, NodeKind.isLiteral]
  rw [Node.literals_eq, own, if_pos isLiteral]
  refine congrArg (_ :: ·) (List.flatMap_eq_nil_iff.mpr fun n mem => ?_)
  obtain ⟨child, isChild, same⟩ := List.mem_filterMap.mp mem
  obtain ⟨piece, -, rfl⟩ := List.mem_map.mp (show child ∈
    (LiteralParts.ofToken kind.flavor t).pieces.map LiteralPiece.toChild from isChild)
  cases piece with
  | token => cases same
  | module name suffix =>
      cases same
      rw [Node.literals_eq]
      rfl

section
variable {broken : Prop}

theorem Shape.isLiteral_eq_false {depth : Nat} {kind : NodeKind} {whole : Bool} {parts : List Part}
    {next : TokenKind} (shape : Shape broken depth kind whole parts next) : kind.isLiteral = false := by
  by_contra isLiteral
  have nothing : production kind = .nothing := by
    cases kind <;> first | rfl | exact absurd rfl isLiteral
  rw [Shape, nothing] at shape
  obtain ⟨-, ⟨-, never⟩ | ⟨-, -, more, k, never | ⟨_, _, -, never⟩⟩⟩ := shape <;> exact never

def Child.literals : Child → List Node
  | .token _ => []
  | .node n => n.literals

theorem flatMap_literals_nodes (children : List Child) :
    (children.filterMap Child.node?).flatMap Node.literals = children.flatMap Child.literals := by
  induction children with
  | nil => rfl
  | cons child children ih =>
      rw [List.flatMap_cons, ← ih]
      cases child with
      | token => rfl
      | node => rfl

mutual

theorem Part.Licensed.literals : ∀ {depth : Nat} {part : Part} {next : TokenKind},
    Licensed (Shape broken) depth part next → (∀ leaf ∈ part.leaves, leaf.Faithful) →
      part.toChild.literals = part.leaves.filterMap literalNode?
  | _, .token _ _, _, _, _ => rfl
  | _, .keyword _ _, _, _, _ => rfl
  | _, .literal label kind t, _, _, faithful =>
      literals_literal (faithful (.literal label kind t) (by simp [leaves]))
  | _, .node label kind whole parts, _, ⟨shape, inner⟩, faithful => by
      have children : (Node.ofChildren kind (toChildren parts)
          (fieldsOf (parts.map Part.label)) 0).nodeChildren =
            (toChildren parts).filterMap Child.node? := rfl
      have own : (Node.ofChildren kind (toChildren parts)
          (fieldsOf (parts.map Part.label)) 0).kind = kind := rfl
      rw [toChild, Child.literals, Node.literals_eq, own, if_neg (by simp [shape.isLiteral_eq_false]),
        List.nil_append, children, flatMap_literals_nodes, leaves]
      exact Part.LicensedAll.literals inner faithful

theorem Part.LicensedAll.literals : ∀ {depth : Nat} {parts : List Part} {next : TokenKind},
    LicensedAll (Shape broken) depth parts next → (∀ leaf ∈ leavesOf parts, leaf.Faithful) →
      (toChildren parts).flatMap Child.literals = (leavesOf parts).filterMap literalNode?
  | _, [], _, _, _ => rfl
  | _, part :: more, _, ⟨first, rest⟩, faithful => by
      rw [toChildren, List.flatMap_cons, leavesOf, List.filterMap_append,
        Part.Licensed.literals first fun leaf mem => faithful leaf (List.mem_append_left _ mem),
        Part.LicensedAll.literals rest fun leaf mem => faithful leaf (List.mem_append_right _ mem)]

end

theorem TreeOf.literals {entry : Entry} {tokens : List Token} {root : Node} {parts : List Part}
    (tree : TreeOf broken entry tokens root parts) :
    root.literals = (leavesOf parts).filterMap literalNode? := by
  have other : root.kind.isLiteral = false := by
    rw [tree.kind_eq]
    cases entry <;> rfl
  have children : root.nodeChildren = (toChildren parts).filterMap Child.node? := by
    rw [Child.node.inj tree.tree]
    rfl
  rw [Node.literals_eq, other, children, flatMap_literals_nodes,
    (tree.licensed 0).literals tree.faithful]
  rfl

end

/-- A tree refines the tokens of its source. They are the leaves of the tree in order: each one as it
is, or a name that spells a keyword and has become one, or a literal in the pieces of the flavor of
its node; and the nodes of literals are those of these leaves. Without a limit, the lexical errors
are those of the source and of each literal, once each. -/
theorem tokens_refine (entry : Entry) (source : String) :
    let stream := TokenStream.ofText source.toList
    ∃ leaves : List Part, (∀ leaf ∈ leaves, leaf.Faithful) ∧
      leaves.flatMap Part.tokens = stream.toList ∧
      (∀ maxErrors, (parse entry maxErrors source).root.tokens = leaves.flatMap Part.shown ∧
        (parse entry maxErrors source).root.literals = leaves.filterMap Part.literalNode? ∧
        ∀ t ∈ (parse entry maxErrors source).root.tokens, t.kind.isLiteral = false) ∧
      ∃ bound, ∀ limit, bound ≤ limit →
        ((parse entry limit source).errors.filterMap ParseError.lexical?).Perm
          (stream.errors ++ leaves.flatMap Part.errors) := by
  intro stream
  obtain ⟨parts, tree, errors⟩ := parseStream_ofText_tree True entry source.toList fun _ => trivial
  refine ⟨leavesOf parts, tree.faithful, ?_, fun _ => ⟨tree.tokens_root, tree.literals, ?_⟩, ?_⟩
  · rw [← tokensOf_eq_leaves, tree.tokens]
  · intro t mem
    have shown : t ∈ (leavesOf parts).flatMap Part.shown := tree.tokens_root ▸ mem
    obtain ⟨leaf, isLeaf, own⟩ := List.mem_flatMap.mp shown
    exact (tree.faithful leaf isLeaf).shown t own
  · obtain ⟨bound, unlimited⟩ := exists_unlimited entry source
    refine ⟨bound, fun limit enough => ?_⟩
    have own : ∀ errors : List LexicalError,
        (errors.map ParseError.lexical).filterMap ParseError.lexical? = errors := by
      intro errors
      rw [List.filterMap_map]
      exact List.filterMap_some
    rw [unlimited limit enough, ← errorsOf_eq_leaves, errors]
    refine ((ParseError.sortByStart_perm _).filterMap _).trans ?_
    rw [List.filterMap_append, own]
    exact .refl _

end UmkaSyntax
