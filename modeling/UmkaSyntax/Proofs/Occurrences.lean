import UmkaSyntax.Proofs.Tree.Preorder

namespace UmkaSyntax

/-- What stands at the end of the path, which tells the index of a child at each step. -/
def Child.at? : Child → List Nat → Option Child
  | c, [] => some c
  | .token _, _ :: _ => none
  | .node n, i :: path => n.children[i]?.bind (·.at? path)

mutual

def Node.occurrences : Node → List (List Nat × Child)
  | ⟨kind, span, children, fields⟩ =>
      ([], .node ⟨kind, span, children, fields⟩) :: Child.occurrencesFrom 0 children

def Child.occurrences : Child → List (List Nat × Child)
  | .token t => [([], .token t)]
  | .node n => n.occurrences

def Child.occurrencesFrom (i : Nat) : List Child → List (List Nat × Child)
  | [] => []
  | child :: more =>
      child.occurrences.map (fun (path, c) => (i :: path, c)) ++ Child.occurrencesFrom (i + 1) more

end

mutual

theorem Node.mem_occurrences {path : List Nat} {c : Child} (n : Node) :
    (path, c) ∈ n.occurrences ↔ (Child.node n).at? path = some c := by
  obtain ⟨kind, span, children, fields⟩ := n
  rw [Node.occurrences, List.mem_cons, Child.mem_occurrencesFrom 0 children]
  cases path with
  | nil => simp [Child.at?, eq_comm]
  | cons i path => simp [Child.at?, Option.bind_eq_some_iff]

theorem Child.mem_occurrences {path : List Nat} {c : Child} (child : Child) :
    (path, c) ∈ child.occurrences ↔ child.at? path = some c := by
  cases child with
  | token t => cases path <;> simp [Child.occurrences, Child.at?, eq_comm]
  | node n =>
      rw [Child.occurrences]
      exact Node.mem_occurrences n

theorem Child.mem_occurrencesFrom {path : List Nat} {c : Child} (i : Nat) (children : List Child) :
    (path, c) ∈ Child.occurrencesFrom i children ↔
      ∃ j below child, path = (i + j) :: below ∧ children[j]? = some child ∧
        child.at? below = some c := by
  cases children with
  | nil => simp [Child.occurrencesFrom]
  | cons first more =>
      have inFirst : (path, c) ∈ first.occurrences.map (fun (path, c) => (i :: path, c)) ↔
          ∃ below, path = i :: below ∧ first.at? below = some c := by
        simp only [← Child.mem_occurrences first, List.mem_map, Prod.exists, Prod.mk.injEq]
        constructor
        · rintro ⟨below, d, mem, rfl, rfl⟩
          exact ⟨below, rfl, mem⟩
        · rintro ⟨below, rfl, mem⟩
          exact ⟨below, c, mem, rfl, rfl⟩
      rw [Child.occurrencesFrom, List.mem_append, inFirst, Child.mem_occurrencesFrom (i + 1) more]
      -- the first child is that of the index `0`, and the others are counted from `1` on
      constructor
      · rintro (⟨below, rfl, found⟩ | ⟨j, below, child, rfl, isChild, found⟩)
        · exact ⟨0, below, first, rfl, rfl, found⟩
        · exact ⟨j + 1, below, child, by rw [Nat.add_right_comm, Nat.add_assoc], isChild, found⟩
      · rintro ⟨_ | j, below, child, rfl, isChild, found⟩
        · cases isChild
          exact .inl ⟨below, rfl, found⟩
        · exact .inr ⟨j, below, child, by rw [Nat.add_right_comm, Nat.add_assoc], isChild, found⟩

end

mutual

theorem Node.occurrences_ordered (n : Node) : (n.occurrences.map (·.1)).Pairwise (· < ·) := by
  obtain ⟨kind, span, children, fields⟩ := n
  rw [Node.occurrences, List.map_cons, List.pairwise_cons]
  refine ⟨fun path mem => ?_, Child.occurrencesFrom_ordered 0 children⟩
  obtain ⟨⟨path, c⟩, isBelow, rfl⟩ := List.mem_map.mp mem
  obtain ⟨j, below, -, rfl, -⟩ := (Child.mem_occurrencesFrom 0 children).mp isBelow
  exact List.nil_lt_cons _ _

theorem Child.occurrences_ordered (child : Child) :
    (child.occurrences.map (·.1)).Pairwise (· < ·) := by
  cases child with
  | token t => exact List.pairwise_singleton _ _
  | node n =>
      rw [Child.occurrences]
      exact Node.occurrences_ordered n

theorem Child.occurrencesFrom_ordered (i : Nat) (children : List Child) :
    ((Child.occurrencesFrom i children).map (·.1)).Pairwise (· < ·) := by
  cases children with
  | nil => exact .nil
  | cons first more =>
      rw [Child.occurrencesFrom, List.map_append, List.pairwise_append]
      refine ⟨?_, Child.occurrencesFrom_ordered (i + 1) more, ?_⟩
      · have inFirst := Child.occurrences_ordered first
        simp only [List.pairwise_map] at inFirst ⊢
        exact inFirst.imp fun less => List.cons_lt_cons_iff.mpr (.inr ⟨rfl, less⟩)
      · -- every path into the first child is smaller at its first step than one into another child
        intro left isLeft right isRight
        simp only [List.map_map, List.mem_map, Function.comp_apply] at isLeft
        obtain ⟨_, -, rfl⟩ := isLeft
        obtain ⟨⟨path, c⟩, mem, rfl⟩ := List.mem_map.mp isRight
        obtain ⟨j, below, -, rfl, -⟩ := (Child.mem_occurrencesFrom (i + 1) more).mp mem
        exact List.cons_lt_cons_iff.mpr (.inl (by omega))

end

mutual

theorem Node.nodes_occurrences (n : Node) :
    n.occurrences.filterMap (·.2.node?) = n.preorder := by
  obtain ⟨kind, span, children, fields⟩ := n
  rw [Node.occurrences, List.filterMap_cons, Child.nodes_occurrencesFrom 0 children,
    Node.preorder_eq]
  rfl

theorem Child.nodes_occurrences (child : Child) :
    child.occurrences.filterMap (·.2.node?) = child.node?.toList.flatMap Node.preorder := by
  cases child with
  | token t => rfl
  | node n =>
      rw [Child.occurrences, Node.nodes_occurrences n]
      simp [Child.node?]

theorem Child.nodes_occurrencesFrom (i : Nat) (children : List Child) :
    (Child.occurrencesFrom i children).filterMap (·.2.node?) =
      (children.filterMap Child.node?).flatMap Node.preorder := by
  cases children with
  | nil => rfl
  | cons first more =>
      have inFirst := Child.nodes_occurrences first
      rw [Child.occurrencesFrom, List.filterMap_append, List.filterMap_map,
        Child.nodes_occurrencesFrom (i + 1) more]
      simp only [Function.comp_def, inFirst]
      cases first <;> simp [Child.node?, List.filterMap_cons]

end

mutual

theorem Node.tokens_occurrences (n : Node) :
    n.occurrences.filterMap (·.2.token?) = n.tokens := by
  obtain ⟨kind, span, children, fields⟩ := n
  rw [Node.occurrences, List.filterMap_cons, Child.tokens_occurrencesFrom 0 children, Node.tokens]
  rfl

theorem Child.tokens_occurrences (child : Child) :
    child.occurrences.filterMap (·.2.token?) = child.tokens := by
  cases child with
  | token t => rfl
  | node n => rw [Child.occurrences, Node.tokens_occurrences n, Child.tokens]

theorem Child.tokens_occurrencesFrom (i : Nat) (children : List Child) :
    (Child.occurrencesFrom i children).filterMap (·.2.token?) = Child.tokensOf children := by
  cases children with
  | nil => rfl
  | cons first more =>
      rw [Child.occurrencesFrom, List.filterMap_append, List.filterMap_map,
        Child.tokens_occurrencesFrom (i + 1) more, Child.tokensOf, ← Child.tokens_occurrences first]
      rfl

end

theorem Child.tokensOf_eq_flatMap (children : List Child) :
    Child.tokensOf children = children.flatMap Child.tokens := by
  induction children with
  | nil => rfl
  | cons child more ih => rw [Child.tokensOf, ih, List.flatMap_cons]

mutual

theorem Node.tokenChildren_perm (n : Node) :
    (n.preorder.flatMap Node.tokenChildren).Perm n.tokens := by
  obtain ⟨kind, span, children, fields⟩ := n
  rw [Node.preorder_eq, List.flatMap_cons, Node.tokens]
  exact List.perm_append_comm.trans (Child.tokenChildren_perm children)

theorem Child.tokenChildren_perm (children : List Child) :
    (((children.filterMap Child.node?).flatMap Node.preorder).flatMap Node.tokenChildren ++
      children.filterMap Child.token?).Perm (Child.tokensOf children) := by
  cases children with
  | nil => exact .nil
  | cons first more =>
      have rest := Child.tokenChildren_perm more
      cases first with
      | token t => exact List.perm_middle.trans (rest.cons t)
      | node n =>
          have inFirst := (Node.tokenChildren_perm n).append rest
          rwa [← List.append_assoc, ← List.flatMap_append] at inFirst

end

/-- A walk lists the node and then, child by child, the walks through its child nodes. Places and
what stands there can be listed so that every place is there once, in the order of the paths; the
walk is what is a node of this list, and the tokens are what is a token of it. -/
theorem Node.preorder_places (n : Node) :
    n.preorder = n :: n.nodeChildren.flatMap preorder ∧
      n.tokens = n.children.flatMap (fun | .token t => [t] | .node m => m.tokens) ∧
      (∃ placed : List (List Nat × Child), (placed.map (·.1)).Pairwise (· < ·) ∧
        (∀ path c, (path, c) ∈ placed ↔ (Child.node n).at? path = some c) ∧
        n.preorder = placed.filterMap (·.2.node?) ∧ n.tokens = placed.filterMap (·.2.token?)) ∧
      (n.preorder.flatMap tokenChildren).Perm n.tokens ∧
      ∀ kind, n.allOfKind kind = n.preorder.filter (·.kind = kind) ∧
        n.find? kind = (n.preorder.filter (·.kind = kind)).head? := by
  refine ⟨n.preorder_eq, ?_, ⟨n.occurrences, n.occurrences_ordered, fun _ _ => n.mem_occurrences,
    n.nodes_occurrences.symm, n.tokens_occurrences.symm⟩, n.tokenChildren_perm, fun kind => ?_⟩
  · rw [tokens_eq, Child.tokensOf_eq_flatMap]
    refine congrArg n.children.flatMap (funext fun c => ?_)
    cases c <;> rfl
  · exact ⟨rfl, List.head?_filter.symm⟩

end UmkaSyntax
