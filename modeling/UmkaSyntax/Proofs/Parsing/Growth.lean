import UmkaSyntax.Proofs.Parsing.Frames
import UmkaSyntax.Proofs.Tree.Extent

/-!
No node of a tree is empty. Recovery drops open nodes that never got a child; that the others have
one is read off the grammar by `Rule.solid`, which asks of every node that its body adds a child
before it can succeed.
-/

namespace UmkaSyntax

def Look.needsToken : Look → Bool
  | kind k => k != .endOfInput
  | keyword _ | builtin _ => true
  | both a b => a.needsToken || b.needsToken
  | either a b => a.needsToken && b.needsToken
  | always | next _ | not _ => false

theorem Look.ne_nil_of_needsToken {look : Look} (needs : look.needsToken = true)
    {tokens : List Token} (holds : look.holds tokens = true) : tokens ≠ [] := by
  rintro rfl
  induction look with
  | kind k => simp_all [needsToken, Look.holds]
  | keyword k => simp [Look.holds] at holds
  | builtin family => simp [Look.holds] at holds
  | both a b iha ihb =>
      simp only [needsToken, Bool.or_eq_true, Look.holds, Bool.and_eq_true] at needs holds
      exact needs.elim (iha · holds.1) (ihb · holds.2)
  | either a b iha ihb =>
      simp only [needsToken, Bool.and_eq_true, Look.holds, Bool.or_eq_true] at needs holds
      exact holds.elim (iha needs.1) (ihb needs.2)
  | always | next _ | not _ => simp [needsToken] at needs

def Look.isAlways : Look → Bool
  | always => true
  | _ => false

namespace Rule

/-- Whether the open node has a child after the rule succeeded. It is known whether a token is
ahead, and whether the node has a child before. -/
def fills (ahead filled : Bool) : Rule → Bool
  | done | report _ | announce | takeWhile _ | label _ | labelNext _ | retag _ => filled
  | seq first second => second.fills false (first.fills ahead filled)
  | branch look yes no => yes.fills (ahead || look.needsToken) filled && no.fills ahead filled
  | take | takeKeyword | literal _ _ => ahead || filled
  | fail _ | node _ _ | wrapLast _ _ | nested _ => true
  | separated go item before after =>
      go.isAlways && before.fills false (item.fills false false) && after.fills false true
  | recovering _ _ | items _ _ _ => false

def solid (ahead filled : Bool) : Rule → Bool
  | seq first second => first.solid ahead filled && second.solid false (first.fills ahead filled)
  | branch look yes no => yes.solid (ahead || look.needsToken) filled && no.solid ahead filled
  | node _ body => body.fills ahead false && body.solid ahead false
  | wrapLast _ body => filled && body.fills ahead true && body.solid ahead true
  | separated _ item before after =>
      item.solid false false && before.solid false (item.fills false false) &&
        after.solid false true
  | recovering _ item | items _ _ item => item.solid false false
  | _ => true

end Rule

theorem Grammar.categoryRule_solid (category : Category) :
    (categoryRule category).solid false false = true ∧
      (categoryRule category).fills false false = true := by
  cases category <;> decide

theorem Entry.rule_solid (entry : Entry) : entry.rule.solid false false = true := by
  cases entry <;> decide

namespace OpenNode

def Full (n : OpenNode) : Prop := ∀ c ∈ n.children.toList, c.Full

def Filled (n : OpenNode) : Prop := n.children.toList ≠ []

theorem empty_full (kind : NodeKind) (offset : Nat) : (empty kind offset).Full := by
  simp [Full, empty]

@[simp] theorem children_nameLast (field : FieldName) (n : OpenNode) :
    (n.nameLast field).children = n.children := by
  unfold nameLast
  split <;> rfl

@[simp] theorem children_add (child : Child) (n : OpenNode) :
    (n.add child).children = n.children.push child := by
  unfold add
  cases n.pending <;> simp

theorem Full.add {n : OpenNode} (full : n.Full) {child : Child} (hc : child.Full) :
    (n.add child).Full := by
  intro c mem
  simp only [children_add, Array.toList_push, List.mem_append, List.mem_singleton] at mem
  rcases mem with mem | rfl
  · exact full c mem
  · exact hc

theorem add_filled (child : Child) (n : OpenNode) : (n.add child).Filled := by
  simp [Filled]

theorem Full.toNode {n : OpenNode} (full : n.Full) (filled : n.Filled) : n.toNode.Full := by
  obtain ⟨first, more, eq⟩ := List.exists_cons_of_ne_nil filled
  rw [OpenNode.toNode, eq]
  exact .mk _ _ _ _ _ fun m mem => full _ (eq ▸ mem) m rfl

end OpenNode

theorem Child.full_token (t : Token) : Child.Full (.token t) := fun _ eq => by cases eq

theorem Node.Full.child {n : Node} (full : n.Full) : Child.Full (.node n) := by
  rintro _ ⟨⟩
  exact full

namespace Builder

def Full (b : Builder) : Prop := ∀ n ∈ b.top :: b.below, n.Full

theorem Full.mapTop {b : Builder} (full : b.Full) {f : OpenNode → OpenNode} (hf : (f b.top).Full) :
    (b.mapTop f).Full := by
  intro n mem
  rcases List.mem_cons.mp mem with rfl | mem
  · exact hf
  · exact full n (List.mem_cons_of_mem _ mem)

theorem Full.add {b : Builder} (full : b.Full) {child : Child} (hc : child.Full) :
    (b.add child).Full :=
  full.mapTop ((full b.top (by simp)).add hc)

theorem Full.startNode {b : Builder} (full : b.Full) (kind : NodeKind) (offset : Nat) :
    (b.startNode kind offset).Full := by
  intro n mem
  rcases List.mem_cons.mp mem with rfl | mem
  · exact OpenNode.empty_full kind offset
  · exact full n mem

theorem Full.startAroundLast {b : Builder} (full : b.Full) (kind : NodeKind) (offset : Nat) :
    (b.startAroundLast kind offset).Full := by
  have part : ∀ i j, ∀ c ∈ (b.top.children.extract i j).toList, c.Full := by
    intro i j c mem
    rw [Array.toList_extract] at mem
    exact full b.top (by simp) c (List.mem_of_mem_drop (List.mem_of_mem_take mem))
  intro n mem
  simp only [Builder.startAroundLast, OpenNode.split, List.mem_cons] at mem
  rcases mem with rfl | rfl | mem
  · exact part _ _
  · exact part _ _
  · exact full n (List.mem_cons_of_mem _ mem)

theorem startAroundLast_filled {b : Builder} (filled : b.top.Filled) (kind : NodeKind)
    (offset : Nat) : (b.startAroundLast kind offset).top.Filled := by
  have size : 0 < b.top.children.size := by
    rw [← Array.length_toList]
    exact List.length_pos_of_ne_nil filled
  simp only [Builder.startAroundLast, OpenNode.split, OpenNode.Filled, ne_eq]
  rw [← List.length_eq_zero_iff, Array.length_toList, Array.size_extract]
  omega

theorem Full.close {b : Builder} (full : b.Full) (filled : b.top.Filled) : b.close.Full := by
  unfold Builder.close
  split
  · exact full
  · rename_i outer below eq
    intro n mem
    have closed := ((full b.top (by simp)).toNode filled).child
    rcases List.mem_cons.mp mem with rfl | mem
    · exact (full outer (by simp [eq])).add closed
    · exact full n (by simp [eq, mem])

theorem closeDown_full (depth : Nat) {top : OpenNode} {below : List OpenNode}
    (full : ∀ n ∈ top :: below, n.Full) : (closeDown depth top below).Full := by
  fun_induction closeDown depth top below with
  | case1 top => exact fun n mem => full { n with pending := top.pending } (by simp_all)
  | case2 top outer below fits =>
      intro n mem
      rcases List.mem_cons.mp mem with rfl | mem
      · exact full top (by simp)
      · exact full n (by simp [mem])
  | case3 top outer below fits empty ih => exact ih fun n mem => full n (by simp [mem])
  | case4 top outer below fits filled ih =>
      refine ih fun n mem => ?_
      have closed : top.toNode.Full :=
        (full top (by simp)).toNode (by simpa [OpenNode.Filled] using filled)
      rcases List.mem_cons.mp mem with rfl | mem
      · exact (full outer (by simp)).add closed.child
      · exact full n (by simp [mem])

theorem Full.closeTo {b : Builder} (full : b.Full) (depth : Nat) : (b.closeTo depth).Full :=
  closeDown_full depth full

end Builder

theorem LiteralParts.trailLast_ne_nil (trivia : List Trivia) {pieces : List LiteralPiece}
    (nonempty : pieces ≠ []) : trailLast trivia pieces ≠ [] := by
  fun_induction trailLast trivia pieces <;> simp_all

theorem LiteralParts.ofToken_pieces_ne_nil (flavor : Flavor) (t : Token) :
    (ofToken flavor t).pieces ≠ [] := by
  obtain ⟨first, more, eq, -⟩ := ofToken_pieces flavor t
  rw [eq, dress, List.modifyHead_cons]
  exact trailLast_ne_nil _ (List.cons_ne_nil _ _)

theorem LiteralParts.toNode_full (kind : NodeKind) (flavor : Flavor) (t : Token) (offset : Nat) :
    ((ofToken flavor t).toNode kind offset).Full := by
  obtain ⟨piece, pieces, eq⟩ := List.exists_cons_of_ne_nil (ofToken_pieces_ne_nil flavor t)
  rw [toNode, eq, List.map_cons]
  refine .mk _ _ _ _ _ fun n mem => ?_
  rw [← List.map_cons] at mem
  obtain ⟨p, -, hp⟩ := List.mem_map.mp mem
  cases p with
  | token t => cases hp
  | module name suffix =>
      cases hp
      exact .mk _ _ _ _ _ fun m mem => by simp at mem

theorem State.salvage_full (t : Token) : (salvage t).1.Full := by
  unfold salvage
  split
  · exact (LiteralParts.toNode_full _ _ _ _).child
  · exact (LiteralParts.toNode_full _ _ _ _).child
  · exact Child.full_token t

namespace State

def Full (s : State) : Prop := s.builder.Full

def Filled (s : State) : Prop := s.builder.top.Filled

theorem Full.takeAs {s : State} (full : s.Full) (f : Token → Token) : (s.takeAs f).Full := by
  unfold State.takeAs
  split
  · exact full
  · exact Builder.Full.add full (Child.full_token _)

theorem takeAs_filled {s : State} (f : Token → Token) (taken : s.rest ≠ [] ∨ s.Filled) :
    (s.takeAs f).Filled := by
  unfold takeAs
  split
  · rename_i eq
    exact taken.resolve_left (not_not_intro eq)
  · exact OpenNode.add_filled _ _

theorem Full.takeWhile {s : State} (full : s.Full) (look : Look) : (s.takeWhile look).Full := by
  suffices taken : ∀ count s, State.Full s → (takeUpTo look count s).Full from taken _ s full
  intro count
  induction count with
  | zero => exact fun _ full => full
  | succ count ih =>
      intro s full
      rw [takeUpTo]
      split
      · exact ih _ (full.takeAs id)
      · exact full

theorem Filled.takeWhile {s : State} (filled : s.Filled) (look : Look) :
    (s.takeWhile look).Filled := by
  suffices taken : ∀ count s, State.Filled s → (takeUpTo look count s).Filled from
    taken _ s filled
  intro count
  induction count with
  | zero => exact fun _ filled => filled
  | succ count ih =>
      intro s filled
      rw [takeUpTo]
      split
      · exact ih _ (takeAs_filled id (.inr filled))
      · exact filled

theorem Full.takeLiteral {s : State} (full : s.Full) (kind : NodeKind) (flavor : Flavor) :
    (s.takeLiteral kind flavor).Full := by
  unfold State.takeLiteral
  split
  · exact full
  · exact Builder.Full.add full (LiteralParts.toNode_full _ _ _ _).child

theorem takeLiteral_filled {s : State} (kind : NodeKind) (flavor : Flavor)
    (taken : s.rest ≠ [] ∨ s.Filled) : (s.takeLiteral kind flavor).Filled := by
  unfold takeLiteral
  split
  · rename_i eq
    exact taken.resolve_left (not_not_intro eq)
  · exact OpenNode.add_filled _ _

theorem Full.discard {s : State} (full : s.Full) (count : Nat) : (s.discard count).Full := by
  unfold State.discard
  dsimp only
  split
  · exact full
  · rename_i nonempty
    refine Builder.Full.add full (Node.Full.child ?_)
    obtain ⟨t, tokens, eq⟩ : ∃ t tokens, s.rest.take count = t :: tokens :=
      List.exists_cons_of_ne_nil fun eq => nonempty (by simp [eq])
    rw [eq, List.map_cons, List.map_cons]
    refine .mk _ _ _ _ _ fun n mem => ?_
    rw [← List.map_cons, ← List.map_cons, List.map_map] at mem
    obtain ⟨u, -, hu⟩ := List.mem_map.mp mem
    exact salvage_full u n hu

theorem Full.recover {s : State} (full : s.Full) (e : SyntaxError) (depth : Nat) (sync : SyncSet) :
    (s.recover e depth sync).Full := by
  have closed : ((s.record (.syntactic e)).onBuilder (Builder.closeTo depth)).Full :=
    Builder.Full.closeTo full depth
  simp only [State.recover]
  split
  · exact closed.discard _
  · exact closed.discard _

end State

namespace Outcome

/-- All trees are full at the end, and if `fills` then the open node has a child after a success. -/
def Sound (fills : Bool) : Outcome → Prop
  | ok s => s.Full ∧ (fills = true → s.Filled)
  | failed _ s => s.Full

theorem Sound.mono {fills less : Bool} {outcome : Outcome} (sound : outcome.Sound fills)
    (le : less = true → fills = true) : outcome.Sound less := by
  cases outcome with
  | ok s => exact ⟨sound.1, fun claim => sound.2 (le claim)⟩
  | failed e s => exact sound

theorem Sound.andThen {early fills : Bool} {outcome : Outcome} {next : State → Outcome}
    (first : outcome.Sound early)
    (second : ∀ s, s.Full → (early = true → s.Filled) → (next s).Sound fills) :
    (outcome.andThen next).Sound fills := by
  cases outcome with
  | ok s => exact second s first.1 first.2
  | failed e s => exact first

theorem Sound.recovered {fills : Bool} {outcome : Outcome} (sound : outcome.Sound fills)
    (depth : Nat) (sync : SyncSet) : (outcome.recovered depth sync).Full := by
  cases outcome with
  | ok s => exact sound.1
  | failed e s => exact State.Full.recover sound e depth sync

theorem Sound.closed {outcome : Outcome} (sound : outcome.Sound true) {outer : OpenNode}
    {below : List OpenNode} (keeps : outcome.Keeps (outer :: below)) :
    (outcome.andThen fun s => .ok (s.onBuilder Builder.close)).Sound true := by
  cases outcome with
  | ok s =>
      refine ⟨Builder.Full.close sound.1 (sound.2 rfl), fun _ => ?_⟩
      change s.builder.close.top.Filled
      rw [Builder.close_of_below keeps]
      exact OpenNode.add_filled _ _
  | failed e s => exact sound

end Outcome

namespace Rule

theorem runSeparated_sound {go : Look} {item before after : State → Outcome} {i b a : Bool}
    (hi : ∀ s, s.Full → (item s).Sound i)
    (hb : ∀ s, s.Full → (i = true → s.Filled) → (before s).Sound b)
    (ha : ∀ s, s.Full → s.Filled → (after s).Sound a) (rounds : Nat) {s : State} (full : s.Full)
    (some : rounds = 0 → (go.isAlways && b && a) = true → s.Filled) :
    (runSeparated go item before after rounds s).Sound (go.isAlways && b && a) := by
  induction rounds generalizing s with
  | zero => exact ⟨full, some rfl⟩
  | succ rounds ih =>
      rw [runSeparated]
      split
      · refine (hi s full).andThen fun t fullT filledT => ?_
        refine (hb t fullT filledT).andThen fun u fullU filledU => ?_
        split
        · rename_i comma
          have taken : u.take.Filled :=
            State.takeAs_filled id (.inl (Look.ne_nil_of_needsToken rfl comma))
          refine (ha u.take (fullU.takeAs id) taken).andThen fun v fullV filledV => ?_
          exact ih fullV fun _ claim => filledV (by simp_all)
        · exact ⟨fullU, fun claim => filledU (by simp_all)⟩
      · rename_i stops
        refine ⟨full, fun claim => ?_⟩
        cases go <;> simp_all [Look.isAlways, Look.holds]

theorem Rounds.full {sync : SyncSet} {item : State → Outcome} {i : Bool}
    (hi : ∀ s, s.Full → (item s).Sound i) {s t : State} (rounds : Rounds sync item s t)
    (full : s.Full) : t.Full := by
  induction rounds with
  | refl => exact full
  | @tail u _ _ round ih =>
      cases round with
      | terminators => exact ih.takeWhile .terminator
      | item =>
          have recovered := (hi u ih).recovered u.depth sync
          simp only [itemRound]
          split
          · exact State.Full.discard (s := State.note _ _) recovered 1
          · exact recovered

theorem run_sound {enter : Category → State → Outcome}
    (keeps : ∀ category s, (enter category s).Keeps s.builder.below)
    (he : ∀ category s, s.Full → (enter category s).Sound true) (rule : Rule)
    {ahead filled : Bool} (solid : rule.solid ahead filled = true) {s : State} (full : s.Full)
    (ha : ahead = true → s.rest ≠ []) (hf : filled = true → s.Filled) :
    (rule.run enter s).Sound (rule.fills ahead filled) := by
  have taken : (ahead || filled) = true → s.rest ≠ [] ∨ s.Filled := by
    rw [Bool.or_eq_true]
    exact Or.imp ha hf
  -- `ahead` (a token is there to take) and `filled` (the open node has a child) are kept up with
  -- the run as `fills` reckons them from the rule.
  induction rule generalizing ahead filled s with
  | done | report | announce => exact ⟨full, hf⟩
  | label field => exact ⟨full.mapTop (by simpa [OpenNode.Full] using full s.builder.top (by simp)),
      fun claim => by simpa [State.Filled, State.onBuilder, Builder.mapTop, OpenNode.Filled] using hf claim⟩
  | labelNext field | retag kind => exact ⟨full.mapTop (full s.builder.top (by simp)), hf⟩
  | fail issue => exact full
  | take => exact ⟨full.takeAs id, fun claim => State.takeAs_filled id (taken claim)⟩
  | takeKeyword => exact ⟨full.takeAs _, fun claim => State.takeAs_filled _ (taken claim)⟩
  | takeWhile look => exact ⟨full.takeWhile look, fun claim => (hf claim).takeWhile look⟩
  | literal kind flavor =>
      exact ⟨full.takeLiteral kind flavor, fun claim =>
        State.takeLiteral_filled kind flavor (taken claim)⟩
  | seq first second ih₁ ih₂ =>
      simp only [Rule.solid, Bool.and_eq_true] at solid
      refine (ih₁ solid.1 full ha hf taken).andThen fun t fullT filledT => ?_
      exact ih₂ solid.2 fullT (by simp) filledT (by simpa using fun claim => .inr (filledT claim))
  | branch look yes no ih₁ ih₂ =>
      simp only [Rule.solid, Bool.and_eq_true] at solid
      rw [run]
      split
      · rename_i holds
        have ahead' : (ahead || look.needsToken) = true → s.rest ≠ [] := by
          rw [Bool.or_eq_true]
          exact fun known => known.elim ha (Look.ne_nil_of_needsToken · holds)
        refine (ih₁ solid.1 full ahead' hf ?_).mono fun claim => ?_
        · rw [Bool.or_eq_true]
          exact Or.imp ahead' hf
        · exact (Bool.and_eq_true _ _ ▸ claim).1
      · refine (ih₂ solid.2 full ha hf taken).mono fun claim => ?_
        exact (Bool.and_eq_true _ _ ▸ claim).2
  | node kind body ih =>
      simp only [Rule.solid, Bool.and_eq_true] at solid
      have opened := ih (s := s.onBuilder (Builder.startNode kind s.offset)) solid.2
        (full.startNode kind _) ha (by simp) (by simpa using fun known => .inl (ha known))
      rw [solid.1] at opened
      exact opened.closed (run_keeps keeps body _)
  | wrapLast kind body ih =>
      simp only [Rule.solid, Bool.and_eq_true] at solid
      obtain ⟨⟨isFilled, fills⟩, solid⟩ := solid
      have inner := Builder.startAroundLast_filled (hf isFilled) kind s.offset
      have opened := ih (s := s.onBuilder (Builder.startAroundLast kind s.offset)) solid
        (full.startAroundLast kind _) ha (fun _ => inner) (fun _ => .inr inner)
      rw [fills] at opened
      exact opened.closed (run_keeps keeps body _)
  | nested category => exact he category s full
  | separated go item before after ih₁ ih₂ ih₃ =>
      simp only [Rule.solid, Bool.and_eq_true] at solid
      obtain ⟨⟨solidI, solidB⟩, solidA⟩ := solid
      refine runSeparated_sound (fun t fullT => ih₁ solidI fullT (by simp) (by simp) (by simp))
        (fun t fullT filledT => ih₂ solidB fullT (by simp) filledT
          (by simpa using fun claim => .inr (filledT claim)))
        (fun t fullT filledT => ih₃ solidA fullT (by simp) (fun _ => filledT) (fun _ => .inr filledT))
        _ full (by simp)
  | recovering sync item ih =>
      exact ⟨(ih solid full (by simp) (by simp) (by simp)).recovered _ sync, by simp [fills]⟩
  | items stop sync item ih =>
      exact ⟨(runItems_rounds _ _ _ _ _).full (fun t fullT => ih solid fullT (by simp) (by simp) (by simp)) full,
        by simp [fills]⟩

end Rule

theorem enterCategory_sound (levels : Nat) (category : Category) {s : State} (full : s.Full) :
    (enterCategory levels category s).Sound true := by
  induction levels generalizing category s with
  | zero => exact full
  | succ levels ih =>
      obtain ⟨solid, fills⟩ := Grammar.categoryRule_solid category
      rw [enterCategory]
      split
      · exact full
      · exact fills ▸ Rule.run_sound (enterCategory_keeps levels) (fun c s full => ih c full) _ solid
          full (by simp) (by simp)

theorem State.initial_full (kind : NodeKind) (stream : TokenStream) : (initial kind stream).Full := by
  intro n mem
  simp only [initial, List.mem_cons, List.not_mem_nil, or_false] at mem
  subst mem
  exact OpenNode.empty_full _ _

theorem State.Full.record {s : State} (full : s.Full) (e : ParseError) : (s.record e).Full := full

theorem State.Full.closeToRoot {s : State} (full : s.Full) : s.closeToRoot.Full :=
  Builder.Full.closeTo full 1

theorem State.finish_full {fills : Bool} {outcome : Outcome} (sound : outcome.Sound fills) :
    (finish outcome).Full := by
  cases outcome with
  | ok s =>
      have closed : (s.closeToRoot.takeWhile .terminator).Full := sound.1.closeToRoot.takeWhile _
      simp only [finish]
      split
      · exact closed.discard _
      · exact (closed.record _).discard _
  | failed e s =>
      exact ((sound.record _).closeToRoot.takeWhile _).discard _

theorem root_full (entry : Entry) (stream : TokenStream) :
    (parseStream entry stream).root.Full := by
  have full : (parseStream entry stream).Full :=
    State.finish_full (Rule.run_sound (enterCategory_keeps _) (fun c s => enterCategory_sound _ c)
      entry.rule entry.rule_solid (State.initial_full _ _) (by simp) (by simp))
  exact ((full _ (List.mem_cons_self)).add (Child.full_token _)).toNode (OpenNode.add_filled _ _)

end UmkaSyntax
