import UmkaSyntax.Tree.Basic

namespace UmkaSyntax

mutual

def Node.size : Node → Nat
  | ⟨_, _, children, _⟩ => Child.sizes children + 1

def Child.size : Child → Nat
  | .token _ => 0
  | .node n => n.size

def Child.sizes : List Child → Nat
  | [] => 0
  | child :: more => child.size + Child.sizes more

end

namespace Node

def sizes : List Node → Nat
  | [] => 0
  | n :: stack => n.size + sizes stack

theorem sizes_append (left right : List Node) :
    sizes (left ++ right) = sizes left + sizes right := by
  induction left with
  | nil => simp [sizes]
  | cons n left ih => simp [sizes, ih, Nat.add_assoc]

theorem sizes_filterMap_node? (children : List Child) :
    sizes (children.filterMap Child.node?) = Child.sizes children := by
  induction children with
  | nil => rfl
  | cons child more ih =>
    cases child <;> simp [List.filterMap_cons, Child.node?, sizes, Child.sizes, Child.size, ih]

theorem size_eq_sizes_nodeChildren (n : Node) : n.size = sizes n.nodeChildren + 1 := by
  cases n
  simp [size, nodeChildren, sizes_filterMap_node?]

def visit : List Node → List Node
  | [] => []
  | n :: stack => n :: visit (n.nodeChildren ++ stack)
  termination_by stack => sizes stack
  decreasing_by simp [sizes, sizes_append, size_eq_sizes_nodeChildren n]

def preorder (n : Node) : List Node := visit [n]

def find? (n : Node) (kind : NodeKind) : Option Node := n.preorder.find? (·.kind == kind)

def allOfKind (n : Node) (kind : NodeKind) : List Node := n.preorder.filter (·.kind == kind)

def containsError (n : Node) : Bool := n.preorder.any (·.kind == .error)

end Node

end UmkaSyntax
