import Mathlib.Algebra.GroupWithZero.Nat
import UmkaSyntax.Proofs.Tree.Extent

namespace UmkaSyntax

mutual

/-- The greatest cost of a path from the node down, on which every node has the cost of its kind. -/
def Node.weight (cost : NodeKind → Nat) : Node → Nat
  | ⟨kind, _, children, _⟩ => cost kind + Child.heaviest cost children

def Child.weight (cost : NodeKind → Nat) : Child → Nat
  | .token _ => 0
  | .node n => n.weight cost

def Child.heaviest (cost : NodeKind → Nat) : List Child → Nat
  | [] => 0
  | child :: more => max (child.weight cost) (Child.heaviest cost more)

end

def Node.height (n : Node) : Nat := n.weight fun _ => 1

structure Node.Path (root : Node) where
  nodes : List Node
  starts : nodes.head? = some root
  descends : nodes.IsChain fun parent child => .node child ∈ parent.children

variable {cost : NodeKind → Nat} {bound : Nat}

theorem Child.heaviest_le_iff {children : List Child} :
    Child.heaviest cost children ≤ bound ↔ ∀ c ∈ children, c.weight cost ≤ bound := by
  induction children with
  | nil => simp [heaviest]
  | cons child more ih => rw [heaviest, Nat.max_le, ih, List.forall_mem_cons]

theorem Child.weight_le_heaviest {child : Child} {children : List Child} (mem : child ∈ children) :
    child.weight cost ≤ Child.heaviest cost children :=
  heaviest_le_iff.mp (Nat.le_refl _) child mem

namespace Node

theorem weight_eq (n : Node) : n.weight cost = cost n.kind + Child.heaviest cost n.children := by
  cases n
  rw [weight]

theorem weight_ofChildren (kind : NodeKind) (children : List Child) (fields : List Field)
    (offset : Nat) :
    (ofChildren kind children fields offset).weight cost =
      cost kind + Child.heaviest cost children :=
  weight_eq _

theorem weight_child {child parent : Node} (mem : .node child ∈ parent.children) :
    cost parent.kind + child.weight cost ≤ parent.weight cost := by
  rw [weight_eq parent]
  exact Nat.add_le_add_left (Child.weight_le_heaviest mem) _

theorem Path.cost_le {root : Node} (path : root.Path) (cost : NodeKind → Nat) :
    (path.nodes.map fun n => cost n.kind).sum ≤ root.weight cost := by
  suffices along : ∀ (nodes : List Node) (root : Node), nodes.head? = some root →
      (nodes.IsChain fun parent child => .node child ∈ parent.children) →
      (nodes.map fun n => cost n.kind).sum ≤ root.weight cost from
    along path.nodes root path.starts path.descends
  intro nodes
  induction nodes with
  | nil => simp
  | cons first more ih =>
      rintro root ⟨⟩ descends
      rw [List.map_cons, List.sum_cons]
      cases more with
      | nil =>
          rw [weight_eq]
          simp
      | cons second more =>
          rw [List.isChain_cons_cons] at descends
          have below := ih second rfl descends.2
          have step : cost first.kind + second.weight cost ≤ first.weight cost :=
            weight_child descends.1
          omega

end Node

def NodeKind.allBut (free kind : NodeKind) : Nat := if kind = free then 0 else 1

theorem NodeKind.allBut_le (free kind : NodeKind) : free.allBut kind ≤ 1 := by
  unfold allBut
  split <;> omega

/-- Where nodes of the free kind are neither the root nor inside one another, at most every other
node of a path is free. -/
theorem Node.Path.length_le_of_apart {root : Node} (free : NodeKind) (top : root.kind ≠ free)
    (apart : ∀ n m : Node, n.Within root → .node m ∈ n.children → n.kind = free → m.kind ≠ free)
    (path : root.Path) : path.nodes.length ≤ 2 * root.weight free.allBut := by
  suffices along : ∀ (nodes : List Node) (root : Node), nodes.head? = some root →
      (∀ n m : Node, n.Within root → .node m ∈ n.children → n.kind = free → m.kind ≠ free) →
      (nodes.IsChain fun parent child => .node child ∈ parent.children) →
      nodes.length ≤ 2 * (nodes.map fun n => free.allBut n.kind).sum +
        if root.kind = free then 1 else 0 by
    have counted := along path.nodes root path.starts apart path.descends
    have cost := path.cost_le free.allBut
    rw [if_neg top] at counted
    omega
  intro nodes
  induction nodes with
  | nil => simp
  | cons first more ih =>
      rintro root ⟨⟩ apart descends
      rw [List.map_cons, List.sum_cons, List.length_cons, NodeKind.allBut]
      cases more with
      | nil =>
          simp only [List.length_nil, List.map_nil, List.sum_nil]
          split <;> omega
      | cons second more =>
          rw [List.isChain_cons_cons] at descends
          have below := ih second rfl (fun n m within => apart n m (.child descends.1 within)) descends.2
          have differs := apart first second (.self first) descends.1
          by_cases own : first.kind = free
          · rw [if_neg (differs own)] at below
            rw [if_pos own, if_pos own]
            omega
          · rw [if_neg own, if_neg own]
            split at below <;> omega

section
variable (cheap : ∀ kind, cost kind ≤ 1)
include cheap

theorem LiteralParts.weight_toNode (kind : NodeKind) (offset : Nat) (literal : LiteralParts) :
    (literal.toNode kind offset).weight cost ≤ 2 := by
  have pieces : Child.heaviest cost (literal.pieces.map LiteralPiece.toChild) ≤ 1 := by
    rw [Child.heaviest_le_iff]
    intro c mem
    obtain ⟨piece, -, rfl⟩ := List.mem_map.mp mem
    cases piece with
    | token t => exact Nat.zero_le _
    | module word suffix =>
        rw [LiteralPiece.toChild, Child.weight, Node.weight_ofChildren]
        simpa [Child.heaviest, Child.weight] using cheap .moduleRef
  rw [toNode, Node.weight_ofChildren]
  exact Nat.add_le_add (cheap kind) pieces

theorem State.weight_salvage (t : Token) : (salvage t).1.weight cost ≤ 2 := by
  unfold salvage
  split
  · exact LiteralParts.weight_toNode cheap .stringLiteral t.span.start _
  · exact LiteralParts.weight_toNode cheap .charLiteral t.span.start _
  · exact Nat.zero_le _

end

end UmkaSyntax
