import Mathlib.Data.List.Forall2
import Mathlib.Logic.Relation
import UmkaSyntax.Proofs.Parsing.Frames
import UmkaSyntax.Proofs.Parsing.Scan

namespace UmkaSyntax

inductive ClosesTop : List OpenNode → List OpenNode → Prop
  | filled {top outer : OpenNode} {below : List OpenNode} : top.children ≠ #[] →
      ClosesTop (top :: outer :: below) (outer.add (.node top.toNode) :: below)
  | empty {top outer : OpenNode} {below : List OpenNode} : top.children = #[] →
      ClosesTop (top :: outer :: below) (outer :: below)

def OpenNode.GrowsTo (own frame : OpenNode) : Prop := frame = own ∨ ∃ n, frame = own.add (.node n)

theorem Builder.closeDown_closes {depth : Nat} {top : OpenNode} {rest : List OpenNode}
    (some : 1 ≤ depth) (inside : depth ≤ rest.length + 1) :
    ∃ frame outer, Relation.ReflTransGen ClosesTop (top :: rest) (frame :: outer) ∧
      outer.length + 1 = depth ∧
      (frame = top ∧ outer = rest ∨ ∃ own, own :: outer <:+ rest ∧ own.GrowsTo frame) ∧
      closeDown depth top rest = ⟨{ frame with pending := none }, outer⟩ := by
  fun_induction closeDown depth top rest with
  | case1 top =>
      refine ⟨top, [], .refl, ?_, .inl ⟨rfl, rfl⟩, rfl⟩
      simp only [List.length_nil] at inside ⊢
      omega
  | case2 top outer below fits =>
      refine ⟨top, outer :: below, .refl, ?_, .inl ⟨rfl, rfl⟩, rfl⟩
      simp only [List.length_cons] at inside ⊢
      omega
  | case3 top outer below deeper empty ih =>
      obtain ⟨frame, others, closes, length, kept, eq⟩ := ih (by omega)
      refine ⟨frame, others, .head (.empty (Array.isEmpty_iff.mp empty)) closes, length, .inr ?_, eq⟩
      obtain ⟨rfl, rfl⟩ | ⟨own, suffix, grows⟩ := kept
      · exact ⟨frame, List.suffix_rfl, .inl rfl⟩
      · exact ⟨own, suffix.trans (List.suffix_cons _ _), grows⟩
  | case4 top outer below deeper filled ih =>
      obtain ⟨frame, others, closes, length, kept, eq⟩ := ih (by omega)
      refine ⟨frame, others, .head (.filled (mt Array.isEmpty_iff.mpr filled)) closes, length,
        .inr ?_, eq⟩
      obtain ⟨rfl, rfl⟩ | ⟨own, suffix, grows⟩ := kept
      · exact ⟨outer, List.suffix_rfl, .inr ⟨_, rfl⟩⟩
      · exact ⟨own, suffix.trans (List.suffix_cons _ _), grows⟩

inductive Kept : Token → Child → Prop
  | string {t : Token} {closed : Bool} : t.kind = .string closed →
      Kept t (.node ((LiteralParts.ofToken .plain t).toNode .stringLiteral t.span.start))
  | character {t : Token} {closed : Bool} : t.kind = .character closed →
      Kept t (.node ((LiteralParts.ofToken .plain t).toNode .charLiteral t.span.start))
  | token {t : Token} : t.kind.isLiteral = false → Kept t (.token t)

def Token.bodyErrors (t : Token) : List LexicalError :=
  if t.kind.isLiteral then (LiteralParts.ofToken .plain t).errors else []

namespace State

theorem salvage_kept (t : Token) : Kept t (salvage t).1 := by
  unfold salvage
  split
  · rename_i closed kind
    exact .string kind
  · rename_i closed kind
    exact .character kind
  · rename_i noString noCharacter
    refine .token ?_
    cases kind : t.kind with
    | string closed => exact absurd kind (noString closed)
    | character closed => exact absurd kind (noCharacter closed)
    | _ => rfl

theorem salvage_errors (t : Token) : (salvage t).2 = t.bodyErrors := by
  unfold salvage Token.bodyErrors
  cases kind : t.kind <;> rfl

theorem discard_spec (count : Nat) (s : State) :
    (s.discard count).rest = s.rest.drop count ∧
      (s.discard count).errors.toList = s.errors.toList ++
        ((s.rest.take count).flatMap Token.bodyErrors).map .lexical ∧
      if s.rest.take count = [] then (s.discard count).builder = s.builder
      else ∃ children, List.Forall₂ Kept (s.rest.take count) children ∧
        (s.discard count).builder =
          s.builder.add (.node (Node.ofChildren .error children [] s.offset)) := by
  by_cases none : s.rest.take count = []
  · have idle : s.discard count = s := by simp [discard, none]
    have nothing : s.rest.drop count = s.rest := by
      conv_rhs => rw [← List.take_append_drop count s.rest, none, List.nil_append]
    rw [idle, if_pos none, none, nothing]
    simp
  · have kept : List.Forall₂ Kept (s.rest.take count)
        (((s.rest.take count).map salvage).map (·.1)) := by
      rw [List.map_map, List.forall₂_map_right_iff, List.forall₂_same]
      exact fun t _ => salvage_kept t
    have filled : ((s.rest.take count).map salvage).isEmpty = false := by simpa using none
    have errors : ((s.rest.take count).map salvage).flatMap (·.2) =
        (s.rest.take count).flatMap Token.bodyErrors := by
      rw [List.flatMap_map]
      exact List.flatMap_congr fun t _ => salvage_errors t
    rw [if_neg none, discard, filled, if_neg Bool.false_ne_true]
    refine ⟨rfl, ?_, _, kept, rfl⟩
    simp only [recordLexical, Array.toList_appendList, errors]

end State

/-- The parse resumes in state `t`. Of the nodes that were open `frame` is now the innermost one, and
the tokens of `skipped` are passed over. -/
structure State.Resumes (s t : State) (e : SyntaxError) (depth : Nat) (sync : SyncSet)
    (frame : OpenNode) (outer : List OpenNode) (skipped : List Token) : Prop where
  closes : Relation.ReflTransGen ClosesTop (s.builder.top :: s.builder.below) (frame :: outer)
  stays : ∃ own, own :: outer <:+ s.builder.top :: s.builder.below ∧ own.GrowsTo frame
  below : t.builder.below = outer
  depth : t.depth = depth
  moves : s.rest = skipped ++ t.rest
  scan : ∀ passed rest, s.rest = passed ++ rest → (Scan sync passed rest ↔ passed = skipped)
  errors : t.errors.toList =
    s.errors.toList ++ .syntactic e :: (skipped.flatMap Token.bodyErrors).map .lexical
  top : if skipped = [] then t.builder.top = { frame with pending := none }
    else ∃ children start, List.Forall₂ Kept skipped children ∧
      t.builder.top = { frame with
        pending := none
        children := frame.children.push (.node (Node.ofChildren .error children [] start)) }

theorem State.Resumes.note {s t : State} {e : SyntaxError} {depth : Nat} {sync : SyncSet}
    {frame : OpenNode} {outer : List OpenNode} {skipped : List Token}
    (resumes : s.Resumes t e depth sync frame outer skipped) (event : Event) :
    s.Resumes (t.note event) e depth sync frame outer skipped :=
  ⟨resumes.closes, resumes.stays, resumes.below, resumes.depth, resumes.moves, resumes.scan,
    resumes.errors, resumes.top⟩

/-- From every state recovery closes what is open above the depth, and skips what the scan passes
over. -/
theorem State.recover_resumes (s : State) (e : SyntaxError) {depth : Nat} (sync : SyncSet)
    (some : 1 ≤ depth) (inside : depth ≤ s.depth) :
    ∃ frame outer skipped, s.Resumes (s.recover e depth sync) e depth sync frame outer skipped := by
  obtain ⟨frame, outer, closes, length, kept, builder⟩ :=
    @Builder.closeDown_closes depth s.builder.top s.builder.below some inside
  let count := skipLength sync.look 0 s.rest
  let closed := (s.record (.syntactic e)).onBuilder (Builder.closeTo depth)
  obtain ⟨rest, errors, node⟩ := discard_spec count closed
  have ahead : closed.rest = s.rest := rfl
  rw [ahead] at rest errors node
  have here : closed.builder = ⟨{ frame with pending := none }, outer⟩ := builder
  have whole : s.rest = s.rest.take count ++ s.rest.drop count := (List.take_append_drop ..).symm
  have scan : Scan sync (s.rest.take count) (s.rest.drop count) := scan_skipped sync s.rest
  have stays : ∃ own, own :: outer <:+ s.builder.top :: s.builder.below ∧ own.GrowsTo frame := by
    obtain ⟨rfl, rfl⟩ | ⟨own, suffix, grows⟩ := kept
    · exact ⟨_, List.suffix_rfl, .inl rfl⟩
    · exact ⟨own, suffix.trans (List.suffix_cons _ _), grows⟩
  have below : (closed.discard count).builder.below = outer := by
    rw [below_discard, here]
  -- Noting where the parse resumes comes last and changes nothing of this.
  have resumes : s.Resumes (closed.discard count) e depth sync frame outer (s.rest.take count) := by
    refine ⟨closes, stays, below, ?_, ?_, fun passed other eq => ⟨fun goes => ?_, ?_⟩, ?_, ?_⟩
    · rw [State.depth, Builder.depth, below, length]
    · rw [rest]
      exact whole
    · exact goes.unique scan (eq.symm.trans whole)
    · rintro rfl
      rwa [List.append_cancel_left (eq.symm.trans whole)]
    · rw [errors]
      change (s.errors.push (.syntactic e)).toList ++ _ = _
      rw [Array.toList_push, List.append_assoc]
      rfl
    · split
      · rename_i none
        rw [if_pos none] at node
        rw [node, here]
      · rename_i filled
        rw [if_neg filled] at node
        obtain ⟨children, keeps, node⟩ := node
        refine ⟨children, closed.offset, keeps, ?_⟩
        rw [node, here]
        rfl
  refine ⟨frame, outer, s.rest.take count, ?_⟩
  simp only [recover]
  split
  · exact resumes
  · exact resumes.note _

/-- A block with nothing in it is open, and behind brackets that do not match a line ends. -/
def State.stuckBlock : State :=
  (initial .program (TokenStream.ofText ['(', 'a', ';', ']', '}', '\n'])).onBuilder
    (Builder.startNode .block 0)

theorem State.stuckBlock_resumes :
    1 ≤ 1 ∧ 1 ≤ stuckBlock.depth ∧ ∃ frame outer skipped,
      stuckBlock.Resumes
        (stuckBlock.recover (stuckBlock.errorHere (.expected .name)) 1 .topLevel)
        (stuckBlock.errorHere (.expected .name)) 1 .topLevel frame outer skipped := by
  have inside : 1 ≤ stuckBlock.depth := by decide
  exact ⟨Nat.le_refl 1, inside, recover_resumes _ _ .topLevel (Nat.le_refl 1) inside⟩

end UmkaSyntax
