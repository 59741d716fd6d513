import UmkaSyntax.Proofs.Tree.Extent
import UmkaSyntax.Tree.Walk

namespace UmkaSyntax.Node

theorem visit_append (left right : List Node) : visit (left ++ right) = visit left ++ visit right := by
  fun_induction visit left with
  | case1 => rfl
  | case2 n stack ih => rw [List.cons_append, visit, ← List.append_assoc, ih, List.cons_append]

theorem visit_eq_flatMap (stack : List Node) : visit stack = stack.flatMap preorder := by
  induction stack with
  | nil => rw [visit, List.flatMap_nil]
  | cons n stack ih =>
      rw [← List.singleton_append, visit_append, ih]
      rfl

theorem preorder_eq (n : Node) : n.preorder = n :: n.nodeChildren.flatMap preorder := by
  rw [preorder, visit, List.append_nil, visit_eq_flatMap]

theorem allOfKind_eq (n : Node) (kind : NodeKind) :
    n.allOfKind kind =
      (if n.kind = kind then [n] else []) ++ n.nodeChildren.flatMap (·.allOfKind kind) := by
  have inside : (n.nodeChildren.flatMap preorder).filter (·.kind == kind) =
      n.nodeChildren.flatMap (·.allOfKind kind) := by
    rw [List.filter_flatMap]
    rfl
  rw [allOfKind, preorder_eq, List.filter_cons, inside]
  by_cases own : n.kind = kind
  · simp [own]
  · simp [own]

theorem mem_preorder_iff {m n : Node} : m ∈ n.preorder ↔ m.Within n := by
  constructor
  · suffices all : ∀ stack, m ∈ visit stack → ∃ n ∈ stack, m.Within n by
      intro mem
      obtain ⟨k, isRoot, within⟩ := all [n] mem
      rwa [List.mem_singleton.mp isRoot] at within
    intro stack mem
    fun_induction visit stack with
    | case1 => cases mem
    | case2 k stack ih =>
        obtain rfl | later := List.mem_cons.mp mem
        · exact ⟨m, by simp, .self m⟩
        · obtain ⟨c, isNext, within⟩ := ih later
          obtain inside | waiting := List.mem_append.mp isNext
          · obtain ⟨child, isChild, same⟩ := List.mem_filterMap.mp inside
            cases child with
            | token => cases same
            | node own =>
                cases same
                exact ⟨k, by simp, .child isChild within⟩
          · exact ⟨c, List.mem_cons_of_mem _ waiting, within⟩
  · intro within
    induction within with
    | self =>
        rw [preorder_eq]
        exact List.mem_cons_self
    | @child c n isChild _ ih =>
        rw [preorder_eq]
        refine List.mem_cons_of_mem _ (List.mem_flatMap.mpr ⟨c, ?_, ih⟩)
        exact List.mem_filterMap.mpr ⟨_, isChild, rfl⟩

end UmkaSyntax.Node
