import UmkaSyntax.Proofs.Parsing.Growth
import UmkaSyntax.Proofs.Parsing.Progress
import UmkaSyntax.Proofs.Parsing.Relocation

namespace UmkaSyntax

theorem filterMap_node?_shift (k : Nat) (children : List Child) :
    (children.map (Child.shift k)).filterMap Child.node? =
      (children.filterMap Child.node?).map (Node.shift k) := by
  rw [List.filterMap_map, List.map_filterMap]
  refine List.filterMap_congr fun child _ => ?_
  cases child <;> rfl

namespace OpenNode

def nodes (n : OpenNode) : List Node := n.children.toList.filterMap Child.node?

@[simp] theorem nodes_add_token (t : Token) (n : OpenNode) : (n.add (.token t)).nodes = n.nodes := by
  simp [nodes, Child.node?]

@[simp] theorem nodes_add_node (node : Node) (n : OpenNode) :
    (n.add (.node node)).nodes = n.nodes ++ [node] := by
  simp [nodes, Child.node?]

theorem nodeChildren_toNode (n : OpenNode) : n.toNode.nodeChildren = n.nodes := by
  rw [toNode, Node.ofChildren.eq_def]
  rfl

theorem nodes_extend (n : OpenNode) (new : List Child) :
    (n.extend new).nodes = n.nodes ++ new.filterMap Child.node? := by
  simp [nodes, extend]

end OpenNode

namespace Builder

theorem closeDown_grows {depth : Nat} {top outer : OpenNode} {rest below : List OpenNode}
    (inside : (outer :: below) <:+ top :: rest) (hd : depth = below.length + 1) :
    (closeDown depth top rest).top.children = outer.children ∨
      ∃ node, (closeDown depth top rest).top.children = outer.children.push (.node node) := by
  have fitting : ∀ n : OpenNode, closeDown depth n below = ⟨{ n with pending := none }, below⟩ :=
    fun n => closeTo_of_le (b := ⟨n, below⟩) (Nat.le_of_eq hd.symm)
  have inner : ∀ {n m : OpenNode} {more : List OpenNode}, ¬ more.length + 2 ≤ depth →
      (outer :: below) <:+ n :: m :: more → (outer :: below) <:+ m :: more := by
    intro n m more deep inside
    refine (List.suffix_cons_iff.mp inside).resolve_left fun eq => ?_
    obtain ⟨-, rfl⟩ := List.cons.inj eq
    exact deep (Nat.le_of_eq hd.symm)
  fun_induction closeDown depth top rest with
  | case1 top =>
      obtain ⟨rfl, -⟩ := List.cons.inj ((List.suffix_cons_iff.mp inside).resolve_right (by simp))
      exact .inl rfl
  | case2 top next more fits =>
      have whole := inside.eq_of_length_le (by simp only [List.length_cons]; omega)
      obtain ⟨rfl, -⟩ := List.cons.inj whole
      exact .inl rfl
  | case3 top next more deep empty ih => exact ih (inner deep inside)
  | case4 top next more deep filled ih =>
      rcases List.suffix_cons_iff.mp (inner deep inside) with here | around
      · obtain ⟨rfl, rfl⟩ := List.cons.inj here
        rw [fitting]
        exact .inr ⟨_, OpenNode.children_add _ _⟩
      · exact ih (around.trans (List.suffix_cons _ _))

end Builder

def Rule.addsNode : Rule → Bool
  | node _ _ | fail _ => true
  | branch _ yes no => yes.addsNode && no.addsNode
  | seq (report _) second | seq announce second => second.addsNode
  | _ => false

theorem Grammar.declaration_addsNode : declaration.addsNode = true := rfl

def Outcome.Adds (b : Builder) : Outcome → Prop
  | ok s => ∃ node, s.builder = b.add (.node node)
  | failed _ s => (b.top :: b.below) <:+ (s.builder.top :: s.builder.below)

theorem Rule.run_addsNode {enter : Category → State → Outcome}
    (keeps : ∀ category s, (enter category s).Keeps s.builder.below) (rule : Rule)
    (adds : rule.addsNode = true) (s : State) : (rule.run enter s).Adds s.builder := by
  fun_induction addsNode rule generalizing s with
  | case1 kind body =>
      have inside := run_keeps keeps body (s.onBuilder (Builder.startNode kind s.offset))
      rw [run]
      cases ended : body.run enter (s.onBuilder (Builder.startNode kind s.offset)) with
      | ok t =>
          rw [ended] at inside
          exact ⟨_, Builder.close_of_below inside⟩
      | failed e t =>
          rw [ended] at inside
          exact inside.trans (List.suffix_cons _ _)
  | case2 issue => exact List.suffix_refl _
  | case3 look yes no ih₁ ih₂ =>
      obtain ⟨hyes, hno⟩ := Bool.and_eq_true_iff.mp adds
      rw [run]
      split
      · exact ih₁ hyes s
      · exact ih₂ hno s
  | case4 issue second ih => exact ih adds (s.record _)
  | case5 second ih => exact ih adds (s.note _)
  | case6 => exact absurd adds (by simp)

theorem Rendered.ne_nil {t : Token} {shown : List Token} (rendered : Rendered t shown) :
    shown ≠ [] := by
  cases rendered with
  | whole | keyword => exact List.cons_ne_nil _ _
  | literal flavor =>
      obtain ⟨piece, pieces, eq⟩ :=
        List.exists_cons_of_ne_nil (LiteralParts.ofToken_pieces_ne_nil flavor t)
      rw [LiteralParts.tokens, eq]
      cases piece <;> simp [LiteralPiece.tokens]

theorem Renders.eq_nil {source tree : List Token} (renders : Renders source tree)
    (none : tree = []) : source = [] := by
  cases renders with
  | nil => rfl
  | cons rendered _ => exact absurd (List.append_eq_nil_iff.mp none).1 rendered.ne_nil

namespace State

def nodes (s : State) : List Node := s.builder.top.nodes

theorem nodes_takeWhile (look : Look) (s : State) : (s.takeWhile look).nodes = s.nodes := by
  suffices taken : ∀ count s, (takeUpTo look count s).nodes = s.nodes from taken _ s
  intro count
  induction count with
  | zero => exact fun _ => rfl
  | succ count ih =>
      intro s
      rw [takeUpTo]
      split
      · rw [ih, take, takeAs]
        split
        · rfl
        · exact OpenNode.nodes_add_token _ _
      · rfl

theorem nodes_discard {count : Nat} {s : State} (some : s.rest ≠ []) (positive : 0 < count) :
    s.nodes.length < (s.discard count).nodes.length := by
  obtain ⟨t, more, ahead⟩ := List.exists_cons_of_ne_nil some
  obtain ⟨count, rfl⟩ := Nat.exists_eq_succ_of_ne_zero (Nat.ne_of_gt positive)
  unfold discard
  simp only [ahead, List.take_succ_cons, List.map_cons, List.isEmpty_cons, Bool.false_eq_true, if_false]
  simp [nodes, recordLexical, Builder.add, Builder.mapTop]

theorem nodes_recover {s t : State} (steps : Steps s t)
    (inside : (s.builder.top :: s.builder.below) <:+ (t.builder.top :: t.builder.below))
    (e : SyntaxError) (sync : SyncSet) :
    s.nodes.length < (t.recover e s.depth sync).nodes.length ∨
      s.nodes.length ≤ (t.recover e s.depth sync).nodes.length ∧
        (t.recover e s.depth sync).rest.length = s.rest.length := by
  have below : (t.builder.closeTo s.depth).below = s.builder.below := by
    refine Builder.below_closeTo ?_
    rcases List.suffix_cons_iff.mp inside with same | deeper
    · exact (List.cons.inj same).2 ▸ List.suffix_refl _
    · exact (List.suffix_cons _ _).trans deeper
  have grows := Builder.closeDown_grows inside (rfl : s.depth = _)
  change (t.builder.closeTo s.depth).top.children = _ ∨
    ∃ node, (t.builder.closeTo s.depth).top.children = _ at grows
  have nodes : s.nodes.length ≤ (t.builder.closeTo s.depth).top.nodes.length := by
    rcases grows with same | ⟨node, grown⟩
    · rw [OpenNode.nodes, same]
      exact Nat.le_refl _
    · rw [OpenNode.nodes, grown]
      simp [State.nodes, OpenNode.nodes]
  by_cases none : skipLength sync.look 0 t.rest = 0
  · simp only [recover, onBuilder, record, none, ↓reduceIte]
    rcases grows with same | ⟨node, grown⟩
    · -- The tree has the tokens that it had before, so none was taken.
      refine .inr ⟨nodes, ?_⟩
      obtain ⟨-, taken, added, rest, tokens, renders⟩ := steps.advances
      rw [← Builder.tokens_closeTo s.depth, Builder.tokens, Builder.tokensOf, below, OpenNode.tokens,
        same] at tokens
      have nothing : added = [] := List.self_eq_append_right.mp tokens
      rw [rest, renders.eq_nil nothing]
      rfl
    · left
      change _ < (t.builder.closeTo s.depth).top.nodes.length
      rw [OpenNode.nodes, grown]
      simp [State.nodes, OpenNode.nodes, Child.node?]
  · simp only [recover, onBuilder, record, none, ↓reduceIte]
    have some : t.rest ≠ [] := by
      rintro empty
      exact none (by rw [empty]; rfl)
    exact .inl (Nat.lt_of_le_of_lt nodes (nodes_discard (s := ⟨t.rest, _, _, _, _⟩) some
      (Nat.pos_of_ne_zero none)))

end State

/-- Recovery from a failure that took tokens leaves a node, and so does the token that is skipped
after a failure that took none. -/
theorem Rule.itemRound_nodes (sync : SyncSet) {item : State → Outcome}
    (reaches : ∀ s, (item s).Reaches s) {s : State} (ahead : s.rest ≠ [])
    (adds : (item s).Adds s.builder) :
    s.nodes.length < (itemRound sync item s).nodes.length := by
  have after : s.nodes.length < ((item s).recovered s.depth sync).nodes.length ∨
      s.nodes.length ≤ ((item s).recovered s.depth sync).nodes.length ∧
        ((item s).recovered s.depth sync).rest.length = s.rest.length := by
    have reached := reaches s
    cases ended : item s with
    | ok t =>
        rw [ended] at adds
        obtain ⟨node, eq⟩ := adds
        left
        simp [Outcome.recovered, State.nodes, eq, Builder.add, Builder.mapTop]
    | failed e t =>
        rw [ended] at adds reached
        exact State.nodes_recover reached.1 adds e sync
  simp only [itemRound]
  split
  · rename_i stuck
    have skipped := State.nodes_discard
      (s := ((item s).recovered s.depth sync).note (.stuck ((item s).recovered s.depth sync).offset)) 
      (by
        refine List.ne_nil_of_length_pos ?_
        rw [State.note, stuck]
        exact List.length_pos_iff.mpr ahead) (show 0 < 1 from Nat.one_pos)
    exact Nat.lt_of_le_of_lt (after.elim Nat.le_of_lt And.left) skipped
  · rename_i moved
    exact after.resolve_right fun same => moved same.2

theorem State.Beside.nodes_le {s t : State} (beside : State.Beside 0 s s t t)
    (below : t.builder.below = s.builder.below) : s.nodes.length ≤ t.nodes.length := by
  obtain ⟨new, eq, -⟩ := beside.builder.grown (State.depth_of_below below)
  rw [State.nodes, State.nodes, eq, OpenNode.nodes_extend, List.length_append]
  exact Nat.le_add_right _ _

end UmkaSyntax
