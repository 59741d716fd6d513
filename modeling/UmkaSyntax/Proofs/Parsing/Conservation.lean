import UmkaSyntax.Proofs.Literal.Tiling
import UmkaSyntax.Proofs.Parsing.Frames

/-!
No token is lost, doubled or moved. At every moment the tokens of the source are those in the tree
so far and those ahead, where the tree holds a name as a keyword or a literal in its pieces.
-/

namespace UmkaSyntax

inductive Rendered : Token → List Token → Prop
  | whole (t : Token) : Rendered t [t]
  | keyword (t : Token) : Rendered t [State.asKeyword t]
  | literal (flavor : Flavor) (t : Token) : Rendered t (LiteralParts.ofToken flavor t).tokens

inductive Renders : List Token → List Token → Prop
  | nil : Renders [] []
  | cons {t : Token} {source shown tree : List Token} :
      Rendered t shown → Renders source tree → Renders (t :: source) (shown ++ tree)

theorem Rendered.renders {t : Token} {shown : List Token} (rendered : Rendered t shown) :
    Renders [t] shown := by
  simpa using Renders.cons rendered .nil

theorem Renders.append {source₁ source₂ tree₁ tree₂ : List Token} (first : Renders source₁ tree₁)
    (second : Renders source₂ tree₂) : Renders (source₁ ++ source₂) (tree₁ ++ tree₂) := by
  induction first with
  | nil => exact second
  | cons rendered _ ih => simpa [List.append_assoc] using Renders.cons rendered ih

theorem Rendered.laid {t : Token} {shown : List Token} (rendered : Rendered t shown)
    {start stop : Nat} (laid : Laid start t.stretches stop) :
    Laid start (shown.flatMap Token.stretches) stop := by
  cases rendered with
  | whole => simpa using laid
  | keyword =>
      simp only [State.asKeyword, List.flatMap_cons, List.flatMap_nil, List.append_nil]
      split <;> exact laid
  | literal flavor => exact LiteralParts.ofToken_laid flavor laid

theorem Rendered.spelled_eq {t : Token} {shown : List Token} (rendered : Rendered t shown) :
    spelled (shown.flatMap Token.stretches) = spelled t.stretches := by
  cases rendered with
  | whole => simp
  | keyword =>
      simp only [State.asKeyword, List.flatMap_cons, List.flatMap_nil, List.append_nil]
      split <;> rfl
  | literal flavor => exact LiteralParts.spelled_ofToken flavor t

theorem Renders.laid {source tree : List Token} (renders : Renders source tree) {start stop : Nat}
    (laid : Laid start (source.flatMap Token.stretches) stop) :
    Laid start (tree.flatMap Token.stretches) stop := by
  induction renders generalizing start with
  | nil => exact laid
  | cons rendered _ ih =>
      obtain ⟨middle, first, rest⟩ := laid_append.mp laid
      rw [List.flatMap_append]
      exact laid_append.mpr ⟨middle, rendered.laid first, ih rest⟩

theorem Renders.spelled_eq {source tree : List Token} (renders : Renders source tree) :
    spelled (tree.flatMap Token.stretches) = spelled (source.flatMap Token.stretches) := by
  induction renders with
  | nil => rfl
  | cons rendered _ ih =>
      rw [List.flatMap_append, spelled_append, rendered.spelled_eq, ih, List.flatMap_cons,
        spelled_append]

@[simp] theorem Child.tokensOf_append (left right : List Child) :
    Child.tokensOf (left ++ right) = Child.tokensOf left ++ Child.tokensOf right := by
  induction left with
  | nil => simp [Child.tokensOf]
  | cons child left ih => simp [Child.tokensOf, ih, List.append_assoc]

@[simp] theorem Node.tokens_ofChildren (kind : NodeKind) (children : List Child)
    (fields : List Field) (offset : Nat) :
    (Node.ofChildren kind children fields offset).tokens = Child.tokensOf children := by
  rw [Node.ofChildren.eq_def, Node.tokens]

namespace OpenNode

def tokens (n : OpenNode) : List Token := Child.tokensOf n.children.toList

@[simp] theorem tokens_empty (kind : NodeKind) (offset : Nat) :
    (empty kind offset).tokens = [] := by
  simp [tokens, empty, Child.tokensOf]

@[simp] theorem tokens_nameLast (field : FieldName) (n : OpenNode) :
    (n.nameLast field).tokens = n.tokens := by
  unfold nameLast
  split <;> rfl

@[simp] theorem tokens_add (child : Child) (n : OpenNode) :
    (n.add child).tokens = n.tokens ++ child.tokens := by
  unfold add
  cases n.pending <;> simp [tokens, nameLast, Child.tokensOf]

@[simp] theorem tokens_toNode (n : OpenNode) : n.toNode.tokens = n.tokens := by
  simp [toNode, tokens]

theorem children_split (count : Nat) (kind : NodeKind) (offset : Nat) (n : OpenNode) :
    (n.split count kind offset).1.children.toList ++ (n.split count kind offset).2.children.toList =
      n.children.toList := by
  simp only [split]
  rw [← Array.toList_append, Array.extract_append_extract, Nat.zero_min,
    Nat.max_eq_right (Nat.min_le_right _ _), Array.extract_size]

theorem tokens_split (count : Nat) (kind : NodeKind) (offset : Nat) (n : OpenNode) :
    (n.split count kind offset).1.tokens ++ (n.split count kind offset).2.tokens = n.tokens := by
  rw [tokens, tokens, ← Child.tokensOf_append, children_split, tokens]

end OpenNode

namespace Builder

def tokensOf : List OpenNode → List Token
  | [] => []
  | n :: below => tokensOf below ++ n.tokens

def tokens (b : Builder) : List Token := tokensOf (b.top :: b.below)

theorem tokens_add (child : Child) (b : Builder) :
    (b.add child).tokens = b.tokens ++ child.tokens := by
  simp [add, mapTop, tokens, tokensOf]

theorem tokens_mapTop {f : OpenNode → OpenNode} (keeps : ∀ n, (f n).tokens = n.tokens)
    (b : Builder) : (b.mapTop f).tokens = b.tokens := by
  simp [mapTop, tokens, tokensOf, keeps]

theorem tokens_startNode (kind : NodeKind) (offset : Nat) (b : Builder) :
    (b.startNode kind offset).tokens = b.tokens := by
  simp [startNode, tokens, tokensOf]

theorem tokens_startAroundLast (kind : NodeKind) (offset : Nat) (b : Builder) :
    (b.startAroundLast kind offset).tokens = b.tokens := by
  simp [startAroundLast, tokens, tokensOf, List.append_assoc, OpenNode.tokens_split]

theorem tokens_close (b : Builder) : b.close.tokens = b.tokens := by
  unfold close
  split
  · rfl
  · rename_i outer below eq
    simp [tokens, eq, tokensOf, Child.tokens]

theorem tokens_closeDown (depth : Nat) (top : OpenNode) (below : List OpenNode) :
    (closeDown depth top below).tokens = tokensOf (top :: below) := by
  fun_induction closeDown depth top below with
  | case1 top => rfl
  | case2 top outer below fits => rfl
  | case3 top outer below fits empty ih =>
      have nothing : top.tokens = [] := by
        simp only [OpenNode.tokens, Array.isEmpty_iff.mp empty]
        rfl
      rw [ih, tokensOf, tokensOf, tokensOf, nothing, List.append_nil]
  | case4 top outer below fits filled ih =>
      simp [ih, tokensOf, Child.tokens]

theorem tokens_closeTo (depth : Nat) (b : Builder) : (b.closeTo depth).tokens = b.tokens :=
  tokens_closeDown depth b.top b.below

end Builder

theorem LiteralParts.tokens_toNode (kind : NodeKind) (offset : Nat) (literal : LiteralParts) :
    (literal.toNode kind offset).tokens = literal.tokens := by
  have pieces : ∀ list : List LiteralPiece,
      Child.tokensOf (list.map LiteralPiece.toChild) = list.flatMap LiteralPiece.tokens := by
    intro list
    induction list with
    | nil => rfl
    | cons piece list ih =>
        cases piece <;> simp [Child.tokensOf, LiteralPiece.toChild, Child.tokens, ih,
          LiteralPiece.tokens]
  rw [toNode, Node.tokens_ofChildren, pieces, tokens]

namespace State

/-- From the first state to the second, tokens ahead went into the tree, and nothing else. -/
def Advances (s t : State) : Prop :=
  t.endOfInput = s.endOfInput ∧ ∃ taken added, s.rest = taken ++ t.rest ∧
    t.builder.tokens = s.builder.tokens ++ added ∧ Renders taken added

theorem Advances.refl (s : State) : Advances s s :=
  ⟨rfl, [], [], rfl, by simp, .nil⟩

theorem Advances.trans {s t u : State} (first : Advances s t) (second : Advances t u) :
    Advances s u := by
  obtain ⟨end₁, taken₁, added₁, rest₁, tokens₁, renders₁⟩ := first
  obtain ⟨end₂, taken₂, added₂, rest₂, tokens₂, renders₂⟩ := second
  exact ⟨end₂.trans end₁, taken₁ ++ taken₂, added₁ ++ added₂, by rw [rest₁, rest₂, List.append_assoc],
    by rw [tokens₂, tokens₁, List.append_assoc], renders₁.append renders₂⟩

theorem Advances.of_builder {s t : State} (endOfInput : t.endOfInput = s.endOfInput)
    (rest : t.rest = s.rest) (tokens : t.builder.tokens = s.builder.tokens) : Advances s t :=
  ⟨endOfInput, [], [], by simp [rest], by simp [tokens], .nil⟩

theorem takeAs_advances {f : Token → Token} (shows : ∀ t, Rendered t [f t]) (s : State) :
    Advances s (s.takeAs f) := by
  unfold takeAs
  split
  · exact .refl s
  · rename_i t rest eq
    exact ⟨rfl, [t], [f t], by simp [eq], Builder.tokens_add _ _, (shows t).renders⟩

theorem takeLiteral_advances (kind : NodeKind) (flavor : Flavor) (s : State) :
    Advances s (s.takeLiteral kind flavor) := by
  unfold takeLiteral
  split
  · exact .refl s
  · rename_i t rest eq
    refine ⟨rfl, [t], (LiteralParts.ofToken flavor t).tokens, by simp [eq, recordLexical], ?_,
      (Rendered.literal flavor t).renders⟩
    simp [recordLexical, Builder.tokens_add, Child.tokens, LiteralParts.tokens_toNode]

theorem salvage_rendered (t : Token) : Rendered t (salvage t).1.tokens := by
  unfold salvage
  split
  · simpa [Child.tokens, LiteralParts.tokens_toNode] using Rendered.literal .plain t
  · simpa [Child.tokens, LiteralParts.tokens_toNode] using Rendered.literal .plain t
  · exact .whole t

theorem salvaged_renders (source : List Token) :
    Renders source (Child.tokensOf ((source.map salvage).map (·.1))) := by
  induction source with
  | nil => exact .nil
  | cons t source ih => exact .cons (salvage_rendered t) ih

theorem discard_advances (count : Nat) (s : State) : Advances s (s.discard count) := by
  unfold discard
  simp only
  split
  · exact .refl s
  · refine ⟨rfl, s.rest.take count, _, (List.take_append_drop count s.rest).symm, ?_,
      salvaged_renders _⟩
    simp [recordLexical, Builder.tokens_add, Child.tokens]

theorem Step.advances {s t : State} (step : Step s t) : Advances s t := by
  cases step with
  | take => exact takeAs_advances .whole s
  | takeKeyword => exact takeAs_advances .keyword s
  | takeLiteral kind flavor => exact takeLiteral_advances kind flavor s
  | discard count => exact discard_advances count s
  | record issue => exact .of_builder rfl rfl rfl
  | note event => exact .of_builder rfl rfl rfl
  | nameLast field =>
      exact .of_builder rfl rfl (Builder.tokens_mapTop (OpenNode.tokens_nameLast field) _)
  | nameNext field => exact .of_builder rfl rfl (Builder.tokens_mapTop (fun _ => rfl) _)
  | retag kind => exact .of_builder rfl rfl (Builder.tokens_mapTop (fun _ => rfl) _)
  | startNode kind => exact .of_builder rfl rfl (Builder.tokens_startNode kind _ _)
  | startAroundLast kind => exact .of_builder rfl rfl (Builder.tokens_startAroundLast kind _ _)
  | close => exact .of_builder rfl rfl (Builder.tokens_close _)
  | closeTo depth => exact .of_builder rfl rfl (Builder.tokens_closeTo depth _)

theorem Steps.advances {s t : State} (steps : Steps s t) : Advances s t := by
  induction steps with
  | refl => exact .refl s
  | tail _ step ih => exact ih.trans step.advances

theorem Advances.rest_length_le {s t : State} (advances : Advances s t) :
    t.rest.length ≤ s.rest.length := by
  obtain ⟨-, taken, _, rest, -⟩ := advances
  simp [rest]

end State

namespace State

theorem rest_discard_all (s : State) : (s.discard s.rest.length).rest = [] := by
  unfold discard
  cases eq : s.rest <;> simp [eq, recordLexical]

theorem finish_ends (outcome : Outcome) :
    (finish outcome).rest = [] ∧ (finish outcome).builder.below = [] := by
  have closed : ∀ s : State, (s.closeToRoot.takeWhile .terminator).builder.below = [] := by
    intro s
    rw [below_takeWhile]
    exact Builder.below_closeTo (List.nil_suffix)
  cases outcome with
  | ok s =>
      refine ⟨rest_discard_all _, ?_⟩
      simp only [finish, below_discard]
      split
      · exact closed s
      · exact closed s
  | failed e s => exact ⟨rest_discard_all _, (below_discard _ _).trans (closed _)⟩

end State

/-- The tokens of the tree are those of the source, each as a tree shows it. -/
theorem root_renders (entry : Entry) (stream : TokenStream) :
    Renders stream.toList (parseStream entry stream).root.tokens := by
  obtain ⟨endOfInput, taken, added, rest, tokens, renders⟩ :=
    (parseStream_steps entry stream).advances
  have ends := State.finish_ends (entry.rule.runWhole (State.initial entry.rootKind stream))
  change (parseStream entry stream).rest = [] ∧ (parseStream entry stream).builder.below = [] at ends
  rw [ends.1, List.append_nil] at rest
  have top : (parseStream entry stream).builder.top.tokens = added := by
    simpa [Builder.tokens, Builder.tokensOf, ends.2, State.initial] using tokens
  rw [State.root, OpenNode.tokens_toNode, OpenNode.tokens_add, top, endOfInput]
  change stream.tokens = taken at rest
  subst rest
  exact renders.append (Rendered.whole _).renders

end UmkaSyntax
