import UmkaSyntax.Parsing.Parse
import UmkaSyntax.Proofs.Literal.Likeness

namespace UmkaSyntax

/-! ## Tests -/

theorem Look.holds_alike (look : Look) {left right : List Token}
    (alike : List.Forall₂ Token.Alike left right) : look.holds left = look.holds right := by
  induction look generalizing left right with
  | always => rfl
  | kind k =>
      cases alike with
      | nil => rfl
      | cons same _ => simp [holds, same.1]
  | keyword k | builtin family =>
      cases alike with
      | nil => rfl
      | @cons t u _ _ same _ =>
          by_cases name : t.kind = .name
          · simp [holds, name, ← same.1, same.2.1 name]
          · simp [holds, beq_eq_false_iff_ne.mpr name, ← same.1]
  | next look ih =>
      cases alike with
      | nil => rfl
      | cons _ more => exact ih more
  | both a b iha ihb | either a b iha ihb => simp [holds, iha alike, ihb alike]
  | not look ih => simp [holds, ih alike]

def Look.findsLiteral : Look → Bool
  | kind k => k.isLiteral
  | both a b => a.findsLiteral || b.findsLiteral
  | either a b => a.findsLiteral && b.findsLiteral
  | always | keyword _ | builtin _ | next _ | not _ => false

theorem Look.literal_of_holds {look : Look} (finds : look.findsLiteral = true) {t : Token}
    {more : List Token} (holds : look.holds (t :: more) = true) : t.kind.isLiteral = true := by
  induction look with
  | kind k =>
      obtain rfl : t.kind = k := by simpa [Look.holds] using holds
      exact finds
  | both a b iha ihb =>
      simp only [Look.holds, Bool.and_eq_true, findsLiteral, Bool.or_eq_true] at holds finds
      exact finds.elim (iha · holds.1) (ihb · holds.2)
  | either a b iha ihb =>
      simp only [Look.holds, Bool.or_eq_true, findsLiteral, Bool.and_eq_true] at holds finds
      exact holds.elim (iha finds.1) (ihb finds.2)
  | always | keyword | builtin | next | not => cases finds

/-! ## Trees -/

namespace OpenNode

/-- The nodes differ only in what is erased, and neither is part of a literal. -/
structure Alike (n m : OpenNode) : Prop where
  kind : n.kind = m.kind
  outside : n.kind ≠ .moduleRef
  children : n.children.toList.map (Child.erased true) = m.children.toList.map (Child.erased true)
  fields : n.fields = m.fields
  pending : n.pending = m.pending

namespace Alike

variable {n m : OpenNode} (alike : n.Alike m)
include alike

theorem size : n.children.size = m.children.size := by
  simpa using congrArg List.length alike.children

theorem nameLast (label : FieldName) : (n.nameLast label).Alike (m.nameLast label) := by
  have empty : n.children.isEmpty = m.children.isEmpty := by simp [Array.isEmpty, alike.size]
  unfold OpenNode.nameLast
  rw [empty]
  split
  · exact alike
  · exact ⟨alike.kind, alike.outside, alike.children, by rw [alike.size, alike.fields], alike.pending⟩

theorem add {c d : Child} (same : c.erased true = d.erased true) : (n.add c).Alike (m.add d) := by
  have grown : Alike { n with children := n.children.push c, pending := none }
      { m with children := m.children.push d, pending := none } :=
    ⟨alike.kind, alike.outside, by simp [alike.children, same], alike.fields, rfl⟩
  simp only [OpenNode.add, alike.pending]
  cases m.pending with
  | none => exact grown
  | some label => exact grown.nameLast label

theorem toNode : n.toNode.erased = m.toNode.erased := by
  have outside : (n.kind != .moduleRef) = true := by simpa using alike.outside
  have outside' : (m.kind != .moduleRef) = true := alike.kind ▸ outside
  rw [OpenNode.toNode, OpenNode.toNode, Node.erased_ofChildren, Node.erased_ofChildren, outside,
    outside', alike.children, alike.kind, alike.fields]

theorem split {kind : NodeKind} (outside : kind ≠ .moduleRef) (count offset offset' : Nat) :
    (n.split count kind offset).1.Alike (m.split count kind offset').1 ∧
      (n.split count kind offset).2.Alike (m.split count kind offset').2 := by
  have parts : ∀ i j, (n.children.extract i j).toList.map (Child.erased true) =
      (m.children.extract i j).toList.map (Child.erased true) := by
    intro i j
    simp only [Array.toList_extract, List.extract_eq_take_drop, List.map_take, List.map_drop,
      alike.children]
  simp only [OpenNode.split, alike.size, alike.fields]
  exact ⟨⟨alike.kind, alike.outside, parts _ _, rfl, alike.pending⟩,
    ⟨rfl, outside, parts _ _, rfl, rfl⟩⟩

end Alike

end OpenNode

namespace Builder

structure Alike (b c : Builder) : Prop where
  top : b.top.Alike c.top
  below : List.Forall₂ OpenNode.Alike b.below c.below

namespace Alike

variable {b c : Builder} (alike : b.Alike c)
include alike

theorem depth_eq : b.depth = c.depth := by
  rw [depth, depth, alike.below.length_eq]

theorem mapTop {f g : OpenNode → OpenNode} (same : (f b.top).Alike (g c.top)) :
    (b.mapTop f).Alike (c.mapTop g) :=
  ⟨same, alike.below⟩

theorem add {child child' : Child} (same : child.erased true = child'.erased true) :
    (b.add child).Alike (c.add child') :=
  alike.mapTop (alike.top.add same)

theorem startNode {kind : NodeKind} (outside : kind ≠ .moduleRef) (offset offset' : Nat) :
    (b.startNode kind offset).Alike (c.startNode kind offset') :=
  ⟨⟨rfl, outside, rfl, rfl, rfl⟩, .cons alike.top alike.below⟩

theorem startAroundLast {kind : NodeKind} (outside : kind ≠ .moduleRef) (offset offset' : Nat) :
    (b.startAroundLast kind offset).Alike (c.startAroundLast kind offset') := by
  simp only [Builder.startAroundLast, alike.top.size]
  obtain ⟨rest, inner⟩ := alike.top.split outside (c.top.children.size - 1) offset offset'
  exact ⟨inner, .cons rest alike.below⟩

theorem close : b.close.Alike c.close := by
  obtain ⟨top, below⟩ := b
  obtain ⟨top', below'⟩ := c
  obtain ⟨same, outer⟩ := alike
  cases outer with
  | nil => exact ⟨same, .nil⟩
  | cons first more => exact ⟨first.add (by rw [Child.erased, same.toNode, Child.erased]), more⟩

theorem closeTo (depth : Nat) : (b.closeTo depth).Alike (c.closeTo depth) := by
  obtain ⟨top, below⟩ := b
  obtain ⟨top', below'⟩ := c
  obtain ⟨same, outer⟩ := alike
  simp only [Builder.closeTo] at same outer ⊢
  have unnamed : ∀ {n m : OpenNode}, n.Alike m →
      OpenNode.Alike { n with pending := none } { m with pending := none } :=
    fun same => ⟨same.kind, same.outside, same.children, same.fields, rfl⟩
  induction outer generalizing top top' with
  | nil => exact ⟨unnamed same, .nil⟩
  | cons first more ih =>
      have empty : top.children.isEmpty = top'.children.isEmpty := by
        simp [Array.isEmpty, same.size]
      simp only [closeDown, more.length_eq, empty]
      split
      · exact ⟨unnamed same, .cons first more⟩
      · split
        · exact ih _ _ first
        · exact ih _ _ (first.add (by rw [Child.erased, same.toNode, Child.erased]))

end Alike

end Builder

/-! ## States -/

structure Token.Twin (t u : Token) : Prop where
  alike : t.Alike u
  erased : t.erased true = u.erased true
  sizedLeft : t.span.stop = t.span.start + byteLength t.text.toList
  sizedRight : u.span.stop = u.span.start + byteLength u.text.toList

/-- The same place of two sources, whose tokens are related: the start of a token, or the same
letter inside of one. -/
def SamePlace (R : Token → Token → Prop) (x y : Nat) : Prop :=
  ∃ t u d, R t u ∧ x = t.span.start + d ∧ y = u.span.start + d ∧
    (d = 0 ∨ x < t.span.stop ∧ y < u.span.stop)

def ParseError.Twin (R : Token → Token → Prop) (e f : ParseError) : Prop :=
  e.kind = f.kind ∧ SamePlace R e.span.start f.span.start

def SyntaxError.Twin (R : Token → Token → Prop) (e f : SyntaxError) : Prop :=
  e.issue = f.issue ∧ R e.found f.found

/-- The two states are at the same place of two parses, whose tokens are related by `R`. -/
structure State.Twin (R : Token → Token → Prop) (s t : State) : Prop where
  rest : List.Forall₂ R s.rest t.rest
  endOfInput : R s.endOfInput t.endOfInput
  builder : s.builder.Alike t.builder
  errors : List.Forall₂ (ParseError.Twin R) s.errors.toList t.errors.toList

variable {R : Token → Token → Prop} (twins : ∀ t u, R t u → t.Twin u)

section
include twins

theorem SyntaxError.Twin.syntactic {e f : SyntaxError} (twin : e.Twin R f) :
    (ParseError.syntactic e).Twin R (.syntactic f) := by
  obtain ⟨issue, found⟩ := twin
  refine ⟨?_, _, _, 0, found, rfl, rfl, .inl rfl⟩
  simp only [ParseError.kind, SyntaxError.kind, issue, (twins _ _ found).alike.1]

theorem Token.Twin.literal {t u : Token} (related : R t u) (literal : t.kind.isLiteral = true)
    (kind : NodeKind) (flavor : Flavor) :
    ((LiteralParts.ofToken flavor t).toNode kind t.span.start).erased =
        ((LiteralParts.ofToken flavor u).toNode kind u.span.start).erased ∧
      List.Forall₂ (ParseError.Twin R) ((LiteralParts.ofToken flavor t).errors.map .lexical)
        ((LiteralParts.ofToken flavor u).errors.map .lexical) := by
  have twin := twins _ _ related
  have text := twin.alike.2.2 literal
  have unplaced : u.unplaced = t.unplaced := by
    rw [Token.unplaced, Token.unplaced, text, twin.alike.1]
  constructor
  · rw [LiteralParts.toNode_unplaced twin.sizedLeft, LiteralParts.toNode_unplaced twin.sizedRight,
      unplaced]
  · rw [LiteralParts.errors_unplaced twin.sizedLeft, LiteralParts.errors_unplaced twin.sizedRight,
      unplaced, List.map_map, List.map_map, List.forall₂_map_left_iff, List.forall₂_map_right_iff,
      List.forall₂_same]
    intro e mem
    refine ⟨rfl, t, u, e.span.start, related, Nat.add_comm _ _, Nat.add_comm _ _, ?_⟩
    refine (LiteralParts.start_of_mem_errors mem).imp_right fun inside => ?_
    have left : e.span.start + t.span.start < t.span.stop := by
      rw [twin.sizedLeft]
      omega
    have right : e.span.start + u.span.start < u.span.stop := by
      rw [twin.sizedRight, ← text]
      omega
    exact ⟨left, right⟩

theorem State.salvage_twin {t u : Token} (related : R t u) :
    (salvage t).1.erased true = (salvage u).1.erased true ∧
      List.Forall₂ (ParseError.Twin R) ((salvage t).2.map .lexical) ((salvage u).2.map .lexical) := by
  have twin := twins _ _ related
  have kind := twin.alike.1
  by_cases literal : t.kind.isLiteral = true
  · have split := fun kind => Token.Twin.literal twins related literal kind .plain
    cases found : t.kind with
    | string closed =>
        simp only [salvage, ← kind, found, Child.erased]
        exact ⟨by rw [(split _).1], (split .stringLiteral).2⟩
    | character closed =>
        simp only [salvage, ← kind, found, Child.erased]
        exact ⟨by rw [(split _).1], (split .charLiteral).2⟩
    | _ => simp [TokenKind.isLiteral, TokenKind.terminated?, found] at literal
  · have plain : ∀ v : Token, v.kind.isLiteral ≠ true → salvage v = (.token v, []) := by
      intro v other
      cases found : v.kind with
      | string | character => simp [TokenKind.isLiteral, TokenKind.terminated?, found] at other
      | _ => simp only [salvage, found]
    rw [plain t literal, plain u (kind ▸ literal)]
    exact ⟨by rw [Child.erased, twin.erased, Child.erased], .nil⟩

end

namespace State.Twin

variable {s t : State} (twin : s.Twin R t)
include twin

theorem length_eq : s.rest.length = t.rest.length := twin.rest.length_eq

theorem depth_eq : s.depth = t.depth := twin.builder.depth_eq

theorem isEmpty_eq : s.rest.isEmpty = t.rest.isEmpty := by
  have rest := twin.rest
  generalize s.rest = left at rest
  generalize t.rest = right at rest
  cases rest <;> rfl

theorem current : R s.current t.current := by
  have rest := twin.rest
  unfold State.current
  generalize s.rest = left at rest
  generalize t.rest = right at rest
  cases rest with
  | nil => exact twin.endOfInput
  | cons first _ => exact first

theorem errorHere (issue : SyntaxIssue) : (s.errorHere issue).Twin R (t.errorHere issue) :=
  ⟨rfl, twin.current⟩

theorem onBuilder {f g : Builder → Builder} (same : (f s.builder).Alike (g t.builder)) :
    (s.onBuilder f).Twin R (t.onBuilder g) :=
  { twin with builder := same }

theorem note (event event' : Event) : (s.note event).Twin R (t.note event') :=
  ⟨twin.rest, twin.endOfInput, twin.builder, twin.errors⟩

theorem record {e f : ParseError} (same : e.Twin R f) : (s.record e).Twin R (t.record f) := by
  refine { twin with errors := ?_ }
  simp only [State.record, Array.toList_push]
  exact List.rel_append twin.errors (.cons same .nil)

theorem recordLexical {errors errors' : List LexicalError}
    (same : List.Forall₂ (ParseError.Twin R) (errors.map .lexical) (errors'.map .lexical)) :
    (s.recordLexical errors).Twin R (t.recordLexical errors') := by
  refine { twin with errors := ?_ }
  simp only [State.recordLexical, Array.toList_appendList]
  exact List.rel_append twin.errors same

theorem add {rest rest' : List Token} {child child' : Child} (ahead : List.Forall₂ R rest rest')
    (same : child.erased true = child'.erased true) :
    State.Twin R { s with rest := rest, builder := s.builder.add child }
      { t with rest := rest', builder := t.builder.add child' } :=
  ⟨ahead, twin.endOfInput, twin.builder.add same, twin.errors⟩

theorem takeAs {f : Token → Token} (same : ∀ t u, R t u → (f t).erased true = (f u).erased true) :
    (s.takeAs f).Twin R (t.takeAs f) := by
  have rest := twin.rest
  unfold State.takeAs
  generalize s.rest = left at rest
  generalize t.rest = right at rest
  cases rest with
  | nil => exact twin
  | cons first more => exact twin.add more (by rw [Child.erased, same _ _ first, Child.erased])

include twins

theorem holds (look : Look) : look.holds s.rest = look.holds t.rest :=
  look.holds_alike (twin.rest.imp fun _ _ related => (twins _ _ related).alike)

theorem take : s.take.Twin R t.take := twin.takeAs fun _ _ related => (twins _ _ related).erased

theorem takeKeyword : (s.takeAs State.asKeyword).Twin R (t.takeAs State.asKeyword) := by
  refine twin.takeAs fun t u related => ?_
  have same := twins _ _ related
  unfold State.asKeyword
  rw [← same.alike.1]
  split
  · rename_i name
    simp only [Token.erased, if_true, TokenKind.lastingText, (same.alike.2.1 name).1]
  · exact same.erased

omit twin in
theorem takeUpTo (look : Look) (count : Nat) {s t : State} (twin : s.Twin R t) :
    (s.takeUpTo look count).Twin R (t.takeUpTo look count) := by
  induction count generalizing s t with
  | zero => exact twin
  | succ count ih =>
      rw [State.takeUpTo, State.takeUpTo, twin.holds twins]
      split
      · exact ih (twin.take twins)
      · exact twin

theorem takeWhile (look : Look) : (s.takeWhile look).Twin R (t.takeWhile look) := by
  rw [State.takeWhile, State.takeWhile, twin.length_eq]
  exact takeUpTo twins look _ twin

theorem takeLiteral (kind : NodeKind) (flavor : Flavor)
    (literal : ∀ u more, s.rest = u :: more → u.kind.isLiteral = true) :
    (s.takeLiteral kind flavor).Twin R (t.takeLiteral kind flavor) := by
  have rest := twin.rest
  unfold State.takeLiteral
  generalize s.rest = left at rest literal
  generalize t.rest = right at rest
  cases rest with
  | nil => exact twin
  | cons first more =>
      obtain ⟨tree, errors⟩ := Token.Twin.literal twins first (literal _ _ rfl) kind flavor
      exact (twin.add more (by rw [Child.erased, tree, Child.erased])).recordLexical errors

theorem discard (count : Nat) : (s.discard count).Twin R (t.discard count) := by
  have taken := List.forall₂_take count twin.rest
  have behind := List.forall₂_drop count twin.rest
  have salvaged : List.Forall₂ (fun c d : Child × List LexicalError =>
      c.1.erased true = d.1.erased true ∧
        List.Forall₂ (ParseError.Twin R) (c.2.map .lexical) (d.2.map .lexical))
      ((s.rest.take count).map State.salvage) ((t.rest.take count).map State.salvage) :=
    List.forall₂_map_left_iff.mpr (List.forall₂_map_right_iff.mpr
      (taken.imp fun _ _ related => State.salvage_twin twins related))
  simp only [State.discard]
  generalize (s.rest.take count).map State.salvage = left at salvaged
  generalize (t.rest.take count).map State.salvage = right at salvaged
  have children : (left.map (·.1)).map (Child.erased true) =
      (right.map (·.1)).map (Child.erased true) := by
    rw [← List.forall₂_eq_eq_eq, List.forall₂_map_left_iff, List.forall₂_map_right_iff,
      List.forall₂_map_left_iff, List.forall₂_map_right_iff]
    exact salvaged.imp fun _ _ same => same.1
  have errors : List.Forall₂ (ParseError.Twin R) ((left.flatMap (·.2)).map .lexical)
      ((right.flatMap (·.2)).map .lexical) := by
    rw [List.map_flatMap, List.map_flatMap]
    exact List.rel_flatMap salvaged fun _ _ same => same.2
  have empty : left.isEmpty = right.isEmpty := by cases salvaged <;> rfl
  rw [empty]
  split
  · exact twin
  · refine (twin.add behind ?_).recordLexical errors
    rw [Child.erased, Child.erased, Node.erased_ofChildren, Node.erased_ofChildren]
    exact congrArg _ (congrArg (Node.mk _ _ · _) children)

omit twin in
theorem skipLength (stop : Look) {left right : List Token} (alike : List.Forall₂ R left right)
    (depth : Nat) : State.skipLength stop depth left = State.skipLength stop depth right := by
  induction alike generalizing depth with
  | nil => simp only [State.skipLength]
  | @cons t u left right first more ih =>
      have kind := (twins _ _ first).alike.1
      have opens : State.opens t = State.opens u := by simp only [State.opens, kind]
      have closes : State.closes t = State.closes u := by simp only [State.closes, kind]
      have stops := stop.holds_alike
        ((List.Forall₂.cons first more).imp fun _ _ related => (twins _ _ related).alike)
      cases depth with
      | zero => simp only [State.skipLength, stops, opens, ih]
      | succ depth => simp only [State.skipLength, opens, closes, ih]

theorem recover {e f : SyntaxError} (same : e.Twin R f) (depth : Nat) (sync : SyncSet) :
    (s.recover e depth sync).Twin R (t.recover f depth sync) := by
  have closed := (twin.record (same.syntactic twins)).onBuilder (twin.builder.closeTo depth)
  have count := skipLength twins sync.look closed.rest 0
  simp only [State.recover, count]
  split
  · exact closed.discard twins _
  · exact (closed.discard twins _).note _ _

theorem skipStuck : s.skipStuck.Twin R t.skipStuck := (twin.note _ _).discard twins 1

end State.Twin

/-! ## Rules -/

namespace Outcome

inductive Twin (R : Token → Token → Prop) : Outcome → Outcome → Prop
  | ok {s t : State} (twin : s.Twin R t) : Twin R (ok s) (ok t)
  | failed {e f : SyntaxError} {s t : State} (same : e.Twin R f) (twin : s.Twin R t) :
      Twin R (failed e s) (failed f t)

theorem Twin.andThen {first second : Outcome} {next next' : State → Outcome}
    (twin : first.Twin R second)
    (more : ∀ s t, s.Twin R t → (next s).Twin R (next' t)) :
    (first.andThen next).Twin R (second.andThen next') := by
  cases twin with
  | ok twin => exact more _ _ twin
  | failed same twin => exact .failed same twin

include twins in
theorem Twin.recovered {first second : Outcome} (twin : first.Twin R second) (depth : Nat)
    (sync : SyncSet) : (first.recovered depth sync).Twin R (second.recovered depth sync) := by
  cases twin with
  | ok twin => exact twin
  | failed same twin => exact twin.recover twins same depth sync

end Outcome

namespace Rule

def splitsLiterals (known : Bool) : Rule → Bool
  | literal _ _ => known
  | retag kind => kind != .moduleRef
  | node kind body | wrapLast kind body => kind != .moduleRef && body.splitsLiterals known
  | seq first second => first.splitsLiterals known && second.splitsLiterals false
  | branch look yes no => yes.splitsLiterals look.findsLiteral && no.splitsLiterals false
  | separated _ item before after =>
      item.splitsLiterals false && before.splitsLiterals false && after.splitsLiterals false
  | recovering _ item | items _ _ item => item.splitsLiterals false
  | done | fail _ | report _ | announce | take | takeKeyword | takeWhile _ | label _ | labelNext _
  | nested _ => true

include twins

theorem runSeparated_twin {go : Look} {item before after : State → Outcome}
    (runsItem : ∀ s t, s.Twin R t → (item s).Twin R (item t))
    (runsBefore : ∀ s t, s.Twin R t → (before s).Twin R (before t))
    (runsAfter : ∀ s t, s.Twin R t → (after s).Twin R (after t)) (rounds : Nat) {s t : State}
    (twin : s.Twin R t) :
    (runSeparated go item before after rounds s).Twin R
      (runSeparated go item before after rounds t) := by
  induction rounds generalizing s t with
  | zero => exact .ok twin
  | succ rounds ih =>
      rw [runSeparated, runSeparated, twin.holds twins]
      split
      · refine (runsItem s t twin).andThen fun s t twin => ?_
        refine (runsBefore s t twin).andThen fun s t twin => ?_
        rw [twin.holds twins]
        split
        · exact (runsAfter _ _ (twin.take twins)).andThen fun s t twin => ih twin
        · exact .ok twin
      · exact .ok twin

theorem runItems_twin {stop : Look} {sync : SyncSet} {item : State → Outcome}
    (runs : ∀ s t, s.Twin R t → (item s).Twin R (item t)) (rounds : Nat) {s t : State}
    (twin : s.Twin R t) :
    (runItems stop sync item rounds s).Twin R (runItems stop sync item rounds t) := by
  induction rounds generalizing s t with
  | zero => exact twin
  | succ rounds ih =>
      have ahead := twin.takeWhile twins .terminator
      rw [runItems, runItems]
      simp only [ahead.holds twins, ahead.isEmpty_eq]
      split
      · exact ahead
      · have after := (runs _ _ ahead).recovered twins (s.takeWhile .terminator).depth sync
        rw [ahead.depth_eq] at after ⊢
        simp only [after.length_eq, ahead.length_eq]
        split
        · exact ih (after.skipStuck twins)
        · exact ih after

/-- The same rule takes two parses that stand side by side to the same place. -/
theorem run_twin {enter : Category → State → Outcome}
    (enters : ∀ category s t, s.Twin R t → (enter category s).Twin R (enter category t))
    (rule : Rule) {known : Bool} (splits : rule.splitsLiterals known = true) {s t : State}
    (twin : s.Twin R t)
    (ahead : known = true → ∀ u more, s.rest = u :: more → u.kind.isLiteral = true) :
    (rule.run enter s).Twin R (rule.run enter t) := by
  have unknown : ∀ {s : State}, false = true → ∀ (u : Token) more, s.rest = u :: more →
      u.kind.isLiteral = true := fun never => absurd never Bool.false_ne_true
  -- Tokens side by side need not have the same text unless they are literals, so one may be split
  -- only where it is known to be a literal. `known` brings that along from the test in front of it.
  induction rule generalizing known s t with
  | done => exact .ok twin
  | seq first second ih₁ ih₂ =>
      simp only [splitsLiterals, Bool.and_eq_true] at splits
      exact (ih₁ splits.1 twin ahead).andThen fun s t twin => ih₂ splits.2 twin unknown
  | branch look yes no ih₁ ih₂ =>
      simp only [splitsLiterals, Bool.and_eq_true] at splits
      rw [run, run, ← twin.holds twins]
      split
      · rename_i holds
        refine ih₁ splits.1 twin fun finds u more rest => ?_
        rw [rest] at holds
        exact Look.literal_of_holds finds holds
      · exact ih₂ splits.2 twin unknown
  | fail issue => exact .failed (twin.errorHere issue) twin
  | report issue => exact .ok (twin.record ((twin.errorHere issue).syntactic twins))
  | announce => exact .ok (twin.note _ _)
  | take => exact .ok (twin.take twins)
  | takeKeyword => exact .ok (twin.takeKeyword twins)
  | takeWhile look => exact .ok (twin.takeWhile twins look)
  | literal kind flavor => exact .ok (twin.takeLiteral twins kind flavor (ahead splits))
  | label field =>
      exact .ok (twin.onBuilder (twin.builder.mapTop (twin.builder.top.nameLast field)))
  | labelNext field =>
      have top := twin.builder.top
      exact .ok (twin.onBuilder (twin.builder.mapTop
        ⟨top.kind, top.outside, top.children, top.fields, rfl⟩))
  | retag kind =>
      have top := twin.builder.top
      exact .ok (twin.onBuilder (twin.builder.mapTop
        ⟨rfl, by simpa [splitsLiterals] using splits, top.children, top.fields, top.pending⟩))
  | node kind body ih =>
      simp only [splitsLiterals, Bool.and_eq_true, bne_iff_ne] at splits
      refine (ih splits.2 (twin.onBuilder (twin.builder.startNode splits.1 _ _)) ahead).andThen
        fun s t twin => ?_
      exact .ok (twin.onBuilder twin.builder.close)
  | wrapLast kind body ih =>
      simp only [splitsLiterals, Bool.and_eq_true, bne_iff_ne] at splits
      refine (ih splits.2 (twin.onBuilder (twin.builder.startAroundLast splits.1 _ _))
        ahead).andThen fun s t twin => ?_
      exact .ok (twin.onBuilder twin.builder.close)
  | nested category => exact enters category s t twin
  | separated go item before after ih₁ ih₂ ih₃ =>
      simp only [splitsLiterals, Bool.and_eq_true] at splits
      rw [run, run, twin.length_eq]
      exact runSeparated_twin twins (fun s t twin => ih₁ splits.1.1 twin unknown)
        (fun s t twin => ih₂ splits.1.2 twin unknown) (fun s t twin => ih₃ splits.2 twin unknown) _
        twin
  | recovering sync item ih =>
      rw [run, run, twin.depth_eq]
      exact .ok ((ih splits twin unknown).recovered twins _ sync)
  | items stop sync item ih =>
      rw [run, run, twin.length_eq]
      exact .ok (runItems_twin twins (fun s t twin => ih splits twin unknown) _ twin)

end Rule

theorem Grammar.categoryRule_splitsLiterals (category : Category) :
    (categoryRule category).splitsLiterals false = true := by
  cases category <;> decide

theorem Entry.rule_splitsLiterals (entry : Entry) : entry.rule.splitsLiterals false = true := by
  cases entry <;> decide

include twins

theorem enterCategory_twin (levels : Nat) (category : Category) {s t : State} (twin : s.Twin R t) :
    (enterCategory levels category s).Twin R (enterCategory levels category t) := by
  induction levels generalizing category s t with
  | zero => exact .failed (twin.errorHere _) twin
  | succ levels ih =>
      rw [enterCategory, enterCategory, twin.depth_eq]
      split
      · exact .failed (twin.errorHere _) twin
      · exact Rule.run_twin twins (fun category s t twin => ih category twin) _
          (Grammar.categoryRule_splitsLiterals category) twin
          fun never => absurd never Bool.false_ne_true

theorem State.finish_twin {first second : Outcome} (twin : first.Twin R second) :
    (finish first).Twin R (finish second) := by
  cases twin with
  | @ok s t twin =>
      have closed := (twin.onBuilder (twin.builder.closeTo 1)).takeWhile twins .terminator
      have empty : (s.closeToRoot.takeWhile .terminator).rest.isEmpty =
          (t.closeToRoot.takeWhile .terminator).rest.isEmpty := closed.isEmpty_eq
      simp only [finish, empty]
      split
      · rw [show (s.closeToRoot.takeWhile .terminator).rest.length = _ from closed.length_eq]
        exact closed.discard twins _
      · have noted := closed.record ((closed.errorHere .trailing).syntactic twins)
        have discarded := noted.discard twins (t.closeToRoot.takeWhile .terminator).rest.length
        have length := noted.length_eq
        exact length ▸ discarded
  | @failed e f s t same twin =>
      have closed := ((twin.record (same.syntactic twins)).onBuilder
        (twin.builder.closeTo 1)).takeWhile twins .terminator
      have discarded := closed.discard twins
        ((t.record (.syntactic f)).closeToRoot.takeWhile .terminator).rest.length
      have length : ((s.record (.syntactic e)).closeToRoot.takeWhile .terminator).rest.length = _ :=
        closed.length_eq
      simp only [finish, length]
      exact discarded

theorem parseStream_twin (entry : Entry) {left right : TokenStream}
    (tokens : List.Forall₂ R left.tokens right.tokens)
    (ends : R left.endOfInput right.endOfInput) :
    (parseStream entry left).Twin R (parseStream entry right) := by
  have outside : entry.rootKind ≠ .moduleRef := by cases entry <;> decide
  have start : (State.initial entry.rootKind left).Twin R (State.initial entry.rootKind right) :=
    ⟨tokens, ends, ⟨⟨rfl, outside, rfl, rfl, rfl⟩, .nil⟩, .nil⟩
  exact State.finish_twin twins (Rule.run_twin twins
    (fun category s t twin => enterCategory_twin twins _ category twin) entry.rule
    entry.rule_splitsLiterals start fun never => absurd never Bool.false_ne_true)

end UmkaSyntax
