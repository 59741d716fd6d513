import UmkaSyntax.Proofs.Literal.Shift
import UmkaSyntax.Proofs.Parsing.Frames

/-!
A run at another place. What a rule does depends neither on where its tokens lie nor on what the
nodes around it hold already: two runs over the same tokens, one `k` bytes behind the other, add
the same children to the nodes at which they began.
-/

namespace UmkaSyntax

theorem Look.holds_shift (k : Nat) (look : Look) (tokens : List Token) :
    look.holds (tokens.map (Token.shift k)) = look.holds tokens := by
  induction look generalizing tokens with
  | always => rfl
  | kind _ | keyword _ | builtin _ => cases tokens <;> rfl
  | next look ih => rw [holds, holds, ← List.map_tail, ih]
  | both a b iha ihb => rw [holds, holds, iha, ihb]
  | either a b iha ihb => rw [holds, holds, iha, ihb]
  | not look ih => rw [holds, holds, ih]

/-! ## Open nodes -/

namespace OpenNode

def shift (k : Nat) (n : OpenNode) : OpenNode :=
  { n with children := n.children.map (Child.shift k), offset := n.offset + k }

theorem empty_shift (k : Nat) (kind : NodeKind) (offset : Nat) :
    (empty kind offset).shift k = empty kind (offset + k) := by
  simp [empty, shift]

theorem isEmpty_shift (k : Nat) (n : OpenNode) :
    (n.shift k).children.isEmpty = n.children.isEmpty := by
  simp [shift, Array.isEmpty]

theorem nameLast_shift (k : Nat) (field : FieldName) (n : OpenNode) :
    (n.shift k).nameLast field = (n.nameLast field).shift k := by
  rw [nameLast, isEmpty_shift, nameLast]
  split
  · rfl
  · simp [shift]

theorem add_shift (k : Nat) (child : Child) (n : OpenNode) :
    (n.shift k).add (child.shift k) = (n.add child).shift k := by
  have grown : ({ n.shift k with
      children := (n.shift k).children.push (child.shift k), pending := none } : OpenNode) =
        ({ n with children := n.children.push child, pending := none } : OpenNode).shift k := by
    simp [shift]
  have pending : (n.shift k).pending = n.pending := rfl
  simp only [add]
  rw [grown, pending]
  cases n.pending with
  | none => rfl
  | some field => exact nameLast_shift k field _

theorem toNode_shift (k : Nat) (n : OpenNode) : (n.shift k).toNode = n.toNode.shift k := by
  simp [toNode, shift, Node.ofChildren_shift]

theorem split_shift (k count : Nat) (kind : NodeKind) (offset : Nat) (n : OpenNode) :
    (n.shift k).split count kind (offset + k) =
      ((n.split count kind offset).1.shift k, (n.split count kind offset).2.shift k) := by
  simp only [split, shift, Array.size_map, Array.map_extract, Prod.mk.injEq, mk.injEq, true_and,
    and_true]
  rw [← Array.map_extract, Array.getElem?_map]
  cases (n.children.extract (min count n.children.size) n.children.size)[0]? with
  | none => rfl
  | some first => simp [Span.shift]

def extend (n : OpenNode) (new : List Child) : OpenNode :=
  { n with children := n.children ++ new.toArray, pending := none }

theorem add_extend (n : OpenNode) (new : List Child) (child : Child) :
    (n.extend new).add child = n.extend (new ++ [child]) := by
  simp [add, extend]

theorem extend_nil {n : OpenNode} (unnamed : n.pending = none) : n.extend [] = n := by
  simp [extend, ← unnamed]

theorem add_eq_extend {n : OpenNode} (unnamed : n.pending = none) (child : Child) :
    n.add child = n.extend [child] := by
  simp [add, extend, unnamed]

end OpenNode

/-! ## Builders -/

namespace Builder

def push (top : OpenNode) (b : Builder) : Builder := ⟨top, b.top :: b.below⟩

theorem closeTo_of_le {b : Builder} {depth : Nat} (fits : b.depth ≤ depth) :
    b.closeTo depth = b.mapTop fun n => { n with pending := none } := by
  obtain ⟨top, below⟩ := b
  cases below with
  | nil => rfl
  | cons outer below => exact if_pos fits

theorem closeTo_push {top : OpenNode} {b : Builder} {depth : Nat} (deep : depth ≤ b.depth) :
    (b.push top).closeTo depth =
      if top.children.isEmpty then b.closeTo depth else (b.add (.node top.toNode)).closeTo depth :=
  if_neg (Nat.not_le_of_lt (Nat.lt_succ_of_le deep))

/-- What was built on `left` and, `k` bytes behind it, on `right`: the same children, and inside
of them the same open nodes. -/
inductive Beside (k : Nat) (left right : Builder) : Builder → Builder → Prop
  | base (new : List Child) : Beside k left right ⟨left.top.extend new, left.below⟩
      ⟨right.top.extend (new.map (Child.shift k)), right.below⟩
  | push {b c : Builder} (top : OpenNode) : Beside k left right b c →
      Beside k left right (b.push top) (c.push (top.shift k))

namespace Beside
variable {k : Nat} {left right b c : Builder}

theorem depth_eq (same : left.depth = right.depth) (beside : Beside k left right b c) :
    b.depth = c.depth := by
  induction beside with
  | base new => exact same
  | push top _ ih => exact congrArg (· + 1) ih

theorem le_depth (beside : Beside k left right b c) : left.depth ≤ b.depth := by
  induction beside with
  | base new => exact Nat.le_refl _
  | push top _ ih => exact Nat.le_succ_of_le ih

theorem inside (beside : Beside k left right b c) (deep : left.depth < b.depth) :
    ∃ b' c' top, b = b'.push top ∧ c = c'.push (top.shift k) ∧ Beside k left right b' c' := by
  cases beside with
  | base new => exact absurd deep (Nat.lt_irrefl _)
  | push top beside => exact ⟨_, _, top, rfl, rfl, beside⟩

theorem add (beside : Beside k left right b c) (child : Child) :
    Beside k left right (b.add child) (c.add (child.shift k)) := by
  cases beside with
  | base new =>
      simp only [Builder.add, mapTop, OpenNode.add_extend]
      simpa using @base k left right (new ++ [child])
  | push top beside =>
      have grown := beside.push (top.add child)
      rwa [← OpenNode.add_shift] at grown

theorem mapTop (beside : Beside k left right b c) (deep : left.depth < b.depth)
    {f : OpenNode → OpenNode} (moves : ∀ n, f (n.shift k) = (f n).shift k) :
    Beside k left right (b.mapTop f) (c.mapTop f) := by
  obtain ⟨b, c, top, rfl, rfl, around⟩ := beside.inside deep
  have changed := around.push (f top)
  rwa [← moves] at changed

theorem startNode (beside : Beside k left right b c) (kind : NodeKind) (offset : Nat) :
    Beside k left right (b.startNode kind offset) (c.startNode kind (offset + k)) := by
  have opened := beside.push (OpenNode.empty kind offset)
  rwa [OpenNode.empty_shift] at opened

theorem startAroundLast (beside : Beside k left right b c) (deep : left.depth < b.depth)
    (kind : NodeKind) (offset : Nat) :
    Beside k left right (b.startAroundLast kind offset) (c.startAroundLast kind (offset + k)) := by
  obtain ⟨b, c, top, rfl, rfl, around⟩ := beside.inside deep
  have size : (top.shift k).children.size = top.children.size := Array.size_map ..
  have moved : (c.push (top.shift k)).startAroundLast kind (offset + k) =
      (c.push ((top.split (top.children.size - 1) kind offset).1.shift k)).push
        ((top.split (top.children.size - 1) kind offset).2.shift k) := by
    simp only [Builder.startAroundLast, Builder.push, size, OpenNode.split_shift]
  rw [moved]
  exact (around.push _).push _

theorem close (beside : Beside k left right b c) (deep : left.depth < b.depth) :
    Beside k left right b.close c.close := by
  obtain ⟨b, c, top, rfl, rfl, around⟩ := beside.inside deep
  have closed := around.add (.node top.toNode)
  rwa [Child.shift, ← OpenNode.toNode_shift] at closed

theorem unname (beside : Beside k left right b c) :
    Beside k left right (b.mapTop fun n => { n with pending := none })
      (c.mapTop fun n => { n with pending := none }) := by
  cases beside with
  | base new => exact .base new
  | push top around => exact around.push { top with pending := none }

theorem closeTo (beside : Beside k left right b c) (same : left.depth = right.depth) (depth : Nat)
    (outside : left.depth ≤ depth) : Beside k left right (b.closeTo depth) (c.closeTo depth) := by
  obtain ⟨n, size⟩ : ∃ n, b.depth = n := ⟨_, rfl⟩
  induction n generalizing b c with
  | zero => exact absurd size (Nat.succ_ne_zero _)
  | succ n ih =>
      by_cases fits : b.depth ≤ depth
      · rw [closeTo_of_le fits, closeTo_of_le (beside.depth_eq same ▸ fits)]
        exact beside.unname
      · obtain ⟨b, c, top, rfl, rfl, around⟩ := beside.inside (by omega)
        have size' : b.depth = n := Nat.succ.inj size
        have deep : depth ≤ b.depth := Nat.le_of_not_lt fun lt => fits lt
        rw [closeTo_push deep, closeTo_push (around.depth_eq same ▸ deep), OpenNode.isEmpty_shift]
        split
        · exact ih around size'
        · have closed := around.add (.node top.toNode)
          rw [Child.shift, ← OpenNode.toNode_shift] at closed
          exact ih closed size'

theorem grown (beside : Beside k left right b c) (depth : b.depth = left.depth) :
    ∃ new, b = ⟨left.top.extend new, left.below⟩ ∧
      c = ⟨right.top.extend (new.map (Child.shift k)), right.below⟩ := by
  cases beside with
  | base new => exact ⟨new, rfl, rfl⟩
  | push top around =>
      have deep := around.le_depth
      exact absurd (Nat.lt_succ_of_le deep) (Nat.not_lt_of_le (Nat.le_of_eq depth))

end Beside

end Builder

/-! ## States -/

namespace State

theorem asKeyword_shift (k : Nat) (t : Token) :
    asKeyword (t.shift k) = (asKeyword t).shift k := by
  by_cases name : t.kind = .name
  · simp [asKeyword, Token.shift, name]
  · simp [asKeyword, Token.shift, name]

theorem salvage_shift (k : Nat) (t : Token) :
    salvage (t.shift k) =
      ((salvage t).1.shift k, (salvage t).2.map (LexicalError.shift k)) := by
  have kind : (t.shift k).kind = t.kind := rfl
  have start : (t.shift k).span.start = t.span.start + k := rfl
  simp only [salvage, kind, start, LiteralParts.ofToken_shift, LiteralParts.toNode_shift]
  split <;> simp [Child.shift, LiteralParts.shift]

theorem skipLength_shift (k : Nat) (stop : Look) (depth : Nat) (tokens : List Token) :
    skipLength stop depth (tokens.map (Token.shift k)) = skipLength stop depth tokens := by
  fun_induction skipLength stop depth tokens with
  | case1 => simp [skipLength]
  | case2 t more stops =>
      rw [List.map_cons, skipLength, ← List.map_cons, Look.holds_shift, if_pos stops]
  | case3 t more goes ih =>
      rw [List.map_cons, skipLength, ← List.map_cons, Look.holds_shift, if_neg goes]
      exact congrArg (· + 1) ih
  | case4 depth t more inside ih =>
      rw [List.map_cons, skipLength]
      exact congrArg (· + 1) ih

theorem depth_of_below {s t : State} (below : s.builder.below = t.builder.below) :
    s.depth = t.depth :=
  congrArg (·.length + 1) below

structure Beside (k : Nat) (left right s t : State) : Prop where
  rest : t.rest = s.rest.map (Token.shift k)
  endOfInput : t.endOfInput = s.endOfInput.shift k
  builder : left.builder.Beside k right.builder s.builder t.builder
  errors : ∃ new, s.errors.toList = left.errors.toList ++ new ∧
    t.errors.toList = right.errors.toList ++ new.map (ParseError.shift k)

namespace Beside
variable {k : Nat} {left right s t : State}

theorem start (rest : t.rest = s.rest.map (Token.shift k))
    (endOfInput : t.endOfInput = s.endOfInput.shift k) (hs : s.builder.top.pending = none)
    (ht : t.builder.top.pending = none) : Beside k s t s t := by
  have base := @Builder.Beside.base k s.builder t.builder []
  rw [List.map_nil, OpenNode.extend_nil hs, OpenNode.extend_nil ht] at base
  exact ⟨rest, endOfInput, base, [], by simp⟩

theorem holds (beside : Beside k left right s t) (look : Look) :
    look.holds t.rest = look.holds s.rest := by
  rw [beside.rest, Look.holds_shift]

theorem current (beside : Beside k left right s t) : t.current = s.current.shift k := by
  rw [State.current, State.current, beside.rest, beside.endOfInput]
  cases s.rest <;> rfl

theorem offset (beside : Beside k left right s t) : t.offset = s.offset + k := by
  rw [State.offset, State.offset, beside.current]
  rfl

theorem errorHere (beside : Beside k left right s t) (issue : SyntaxIssue) :
    t.errorHere issue = (s.errorHere issue).shift k := by
  rw [State.errorHere, State.errorHere, beside.current]
  rfl

theorem onBuilder (beside : Beside k left right s t) {f g : Builder → Builder}
    (built : left.builder.Beside k right.builder (f s.builder) (g t.builder)) :
    Beside k left right (s.onBuilder f) (t.onBuilder g) :=
  { beside with builder := built }

theorem record (beside : Beside k left right s t) (e : ParseError) :
    Beside k left right (s.record e) (t.record (e.shift k)) := by
  obtain ⟨new, hs, ht⟩ := beside.errors
  exact { beside with errors := ⟨new ++ [e], by simp [State.record, hs], by simp [State.record, ht]⟩ }

theorem note (beside : Beside k left right s t) (e f : Event) :
    Beside k left right (s.note e) (t.note f) :=
  { beside with }

theorem recordLexical (beside : Beside k left right s t) (errors : List LexicalError) :
    Beside k left right (s.recordLexical errors)
      (t.recordLexical (errors.map (LexicalError.shift k))) := by
  obtain ⟨new, hs, ht⟩ := beside.errors
  refine { beside with errors := ⟨new ++ errors.map .lexical, ?_, ?_⟩ }
  · simp [State.recordLexical, hs]
  · simp [State.recordLexical, ht, Function.comp_def, ParseError.shift]

theorem add (beside : Beside k left right s t) (more : List Token) (child : Child) :
    Beside k left right { s with rest := more, builder := s.builder.add child }
      { t with rest := more.map (Token.shift k), builder := t.builder.add (child.shift k) } :=
  { beside with rest := rfl, builder := beside.builder.add child }

theorem takeAs (beside : Beside k left right s t) {f : Token → Token}
    (moves : ∀ t, f (t.shift k) = (f t).shift k) :
    Beside k left right (s.takeAs f) (t.takeAs f) := by
  have rest := beside.rest
  unfold State.takeAs
  cases ahead : s.rest with
  | nil => rw [ahead] at rest; rw [rest]; exact beside
  | cons token more =>
      rw [ahead] at rest
      rw [rest]
      have taken := beside.add more (.token (f token))
      rwa [Child.shift, ← moves] at taken

theorem take (beside : Beside k left right s t) : Beside k left right s.take t.take :=
  beside.takeAs fun _ => rfl

theorem takeWhile (beside : Beside k left right s t) (look : Look) :
    Beside k left right (s.takeWhile look) (t.takeWhile look) := by
  suffices taken : ∀ count s t, Beside k left right s t →
      Beside k left right (takeUpTo look count s) (takeUpTo look count t) by
    have size : t.rest.length = s.rest.length := by rw [beside.rest, List.length_map]
    rw [State.takeWhile, State.takeWhile, size]
    exact taken _ s t beside
  intro count
  induction count with
  | zero => exact fun s t beside => beside
  | succ count ih =>
      intro s t beside
      rw [takeUpTo, takeUpTo, beside.holds]
      split
      · exact ih _ _ beside.take
      · exact beside

theorem takeLiteral (beside : Beside k left right s t) (kind : NodeKind) (flavor : Flavor) :
    Beside k left right (s.takeLiteral kind flavor) (t.takeLiteral kind flavor) := by
  have rest := beside.rest
  unfold State.takeLiteral
  cases ahead : s.rest with
  | nil => rw [ahead] at rest; rw [rest]; exact beside
  | cons token more =>
      rw [ahead] at rest
      rw [rest]
      have taken := (beside.add more
        (.node ((LiteralParts.ofToken flavor token).toNode kind token.span.start))).recordLexical
          (LiteralParts.ofToken flavor token).errors
      rwa [Child.shift, ← LiteralParts.toNode_shift, ← LiteralParts.errors_shift,
        ← LiteralParts.ofToken_shift] at taken

theorem discard (beside : Beside k left right s t) (count : Nat) :
    Beside k left right (s.discard count) (t.discard count) := by
  have salvaged : (t.rest.take count).map salvage = ((s.rest.take count).map salvage).map
      fun skipped => (skipped.1.shift k, skipped.2.map (LexicalError.shift k)) := by
    rw [beside.rest, ← List.map_take, List.map_map, List.map_map]
    exact List.map_congr_left fun t _ => salvage_shift k t
  have rest : t.rest.drop count = (s.rest.drop count).map (Token.shift k) := by
    rw [beside.rest, List.map_drop]
  unfold State.discard
  dsimp only
  rw [salvaged]
  generalize (s.rest.take count).map salvage = skipped
  rw [List.isEmpty_map]
  by_cases none : skipped.isEmpty
  · rw [if_pos none, if_pos none]
    exact beside
  · rw [if_neg none, if_neg none, rest, beside.offset]
    have taken := (beside.add (s.rest.drop count)
      (.node (Node.ofChildren .error (skipped.map (·.1)) [] s.offset))).recordLexical
        (skipped.flatMap (·.2))
    rw [Child.shift, Node.ofChildren_shift] at taken
    simpa [List.map_flatMap, List.flatMap_map, Function.comp_def] using taken

theorem discardRest (beside : Beside k left right s t) :
    Beside k left right (s.discard s.rest.length) (t.discard t.rest.length) := by
  have size : t.rest.length = s.rest.length := by rw [beside.rest, List.length_map]
  rw [size]
  exact beside.discard _

theorem recover (beside : Beside k left right s t) (same : left.depth = right.depth)
    (e : SyntaxError) {depth : Nat} (outside : left.depth ≤ depth) (sync : SyncSet) :
    Beside k left right (s.recover e depth sync) (t.recover (e.shift k) depth sync) := by
  have recorded := beside.record (.syntactic e)
  have closed := recorded.onBuilder (recorded.builder.closeTo same depth outside)
  have count : skipLength sync.look 0 t.rest = skipLength sync.look 0 s.rest := by
    rw [beside.rest, skipLength_shift]
  have skipped := closed.discard (skipLength sync.look 0 s.rest)
  by_cases none : skipLength sync.look 0 s.rest = 0
  · rw [none] at count skipped
    simp only [State.recover, State.onBuilder, State.record, count, none, ↓reduceIte]
    exact skipped
  · simp only [State.recover, State.onBuilder, State.record, count, none, ↓reduceIte]
    exact skipped.note _ _

theorem skipStuck (beside : Beside k left right s t) :
    Beside k left right s.skipStuck t.skipStuck :=
  (beside.note _ _).discard 1

end Beside

end State

/-! ## Rules -/

def Rule.onlyAdds : Rule → Bool
  | done | fail _ | report _ | announce | take | takeKeyword | takeWhile _ | literal _ _ => true
  | label _ | labelNext _ | retag _ | wrapLast _ _ => false
  | node _ _ | nested _ => true
  | seq first second => first.onlyAdds && second.onlyAdds
  | branch _ yes no => yes.onlyAdds && no.onlyAdds
  | separated _ item before after => item.onlyAdds && before.onlyAdds && after.onlyAdds
  | recovering _ item | items _ _ item => item.onlyAdds

theorem Grammar.categoryRule_onlyAdds (category : Category) :
    (categoryRule category).onlyAdds = true := by
  cases category <;> decide

namespace Outcome

inductive Beside (k : Nat) (left right : State) : Outcome → Outcome → Prop
  | ok {s t : State} (beside : State.Beside k left right s t) : Beside k left right (ok s) (ok t)
  | failed (e : SyntaxError) {s t : State} (beside : State.Beside k left right s t) :
      Beside k left right (failed e s) (failed (e.shift k) t)

variable {k : Nat} {left right : State}

theorem Beside.fail {s t : State} (beside : State.Beside k left right s t) (issue : SyntaxIssue) :
    Beside k left right (.failed (s.errorHere issue) s) (.failed (t.errorHere issue) t) := by
  rw [beside.errorHere]
  exact .failed _ beside

theorem Beside.andThen {first first' : Outcome} {next next' : State → Outcome}
    {below : List OpenNode} (beside : first.Beside k left right first') (keeps : first.Keeps below)
    (more : ∀ s t, State.Beside k left right s t → s.builder.below = below →
      (next s).Beside k left right (next' t)) :
    (first.andThen next).Beside k left right (first'.andThen next') := by
  cases beside with
  | ok beside => exact more _ _ beside keeps
  | failed e beside => exact .failed e beside

theorem Beside.recovered {first first' : Outcome} (beside : first.Beside k left right first')
    (same : left.depth = right.depth) (depth : Nat) (outside : left.depth ≤ depth)
    (sync : SyncSet) :
    State.Beside k left right (first.recovered depth sync) (first'.recovered depth sync) := by
  cases beside with
  | ok beside => exact beside
  | failed e beside => exact beside.recover same e outside sync

end Outcome

namespace Rule

section
variable {k : Nat} {left right : State}

theorem runSeparated_beside {go : Look} {item before after : State → Outcome}
    {below : List OpenNode}
    (hi : ∀ s t, State.Beside k left right s t → s.builder.below = below →
      (item s).Keeps below ∧ (item s).Beside k left right (item t))
    (hb : ∀ s t, State.Beside k left right s t → s.builder.below = below →
      (before s).Keeps below ∧ (before s).Beside k left right (before t))
    (ha : ∀ s t, State.Beside k left right s t → s.builder.below = below →
      (after s).Keeps below ∧ (after s).Beside k left right (after t))
    (rounds : Nat) {s t : State} (beside : State.Beside k left right s t)
    (hs : s.builder.below = below) :
    (runSeparated go item before after rounds s).Beside k left right
      (runSeparated go item before after rounds t) := by
  induction rounds generalizing s t with
  | zero => exact .ok beside
  | succ rounds ih =>
      rw [runSeparated, runSeparated, beside.holds]
      split
      · obtain ⟨keeps, agree⟩ := hi s t beside hs
        refine agree.andThen keeps fun s t beside hs => ?_
        obtain ⟨keeps, agree⟩ := hb s t beside hs
        refine agree.andThen keeps fun s t beside hs => ?_
        rw [beside.holds]
        split
        · have hs := (State.below_takeAs id s).trans hs
          obtain ⟨keeps, agree⟩ := ha s.take t.take beside.take hs
          exact agree.andThen keeps fun s t beside hs => ih beside hs
        · exact .ok beside
      · exact .ok beside

theorem itemRound_beside (same : left.depth = right.depth) (sync : SyncSet)
    {item : State → Outcome} {s t : State} (beside : State.Beside k left right s t)
    (agree : (item s).Beside k left right (item t)) :
    State.Beside k left right (itemRound sync item s) (itemRound sync item t) := by
  have depth : t.depth = s.depth := (beside.builder.depth_eq same).symm
  have after := agree.recovered same s.depth beside.builder.le_depth sync
  have progress : ((item t).recovered s.depth sync).rest.length =
      ((item s).recovered s.depth sync).rest.length := by
    rw [after.rest, List.length_map]
  simp only [itemRound, depth, progress, beside.rest, List.length_map]
  split
  · exact after.skipStuck
  · exact after

theorem runItems_beside (same : left.depth = right.depth) (stop : Look) (sync : SyncSet)
    {item : State → Outcome} {below : List OpenNode}
    (hi : ∀ s t, State.Beside k left right s t → s.builder.below = below →
      (item s).Keeps below ∧ (item s).Beside k left right (item t))
    (rounds : Nat) {s t : State} (beside : State.Beside k left right s t)
    (hs : s.builder.below = below) :
    State.Beside k left right (runItems stop sync item rounds s)
      (runItems stop sync item rounds t) := by
  induction rounds generalizing s t with
  | zero => exact beside
  | succ rounds ih =>
      have start := beside.takeWhile .terminator
      have hs := (State.below_takeWhile .terminator s).trans hs
      rw [runItems_succ, runItems_succ, start.holds, start.rest, List.isEmpty_map]
      split
      · exact start
      · obtain ⟨keeps, agree⟩ := hi _ _ start hs
        exact ih (itemRound_beside same sync start agree)
          ((below_itemRound sync (hs.symm ▸ keeps)).trans hs)

theorem run_beside (same : left.depth = right.depth) {enter : Category → State → Outcome}
    (keeps : ∀ category s, (enter category s).Keeps s.builder.below)
    (he : ∀ category s t, State.Beside k left right s t →
      (enter category s).Beside k left right (enter category t)) (rule : Rule) {s t : State}
    (beside : State.Beside k left right s t)
    (fits : rule.onlyAdds = false → left.depth < s.depth) :
    (rule.run enter s).Beside k left right (rule.run enter t) := by
  -- Both runs agree above `left.depth`. A rule that does more to the open node than add to its
  -- children needs one that was opened there.
  induction rule generalizing s t with
  | done => exact .ok beside
  | seq first second ih₁ ih₂ =>
      refine (ih₁ beside fun h => fits (by simp [onlyAdds, h])).andThen (run_keeps keeps first s) ?_
      intro s' t' beside' hs
      refine ih₂ beside' fun h => ?_
      rw [State.depth_of_below hs]
      exact fits (by simp [onlyAdds, h])
  | branch look yes no ih₁ ih₂ =>
      rw [run, run, beside.holds]
      split
      · exact ih₁ beside fun h => fits (by simp [onlyAdds, h])
      · exact ih₂ beside fun h => fits (by simp [onlyAdds, h])
  | fail issue => exact .fail beside issue
  | report issue =>
      have reported := beside.record (.syntactic (s.errorHere issue))
      rw [ParseError.shift, ← beside.errorHere] at reported
      exact .ok reported
  | announce => exact .ok (beside.note _ _)
  | take => exact .ok beside.take
  | takeKeyword => exact .ok (beside.takeAs (State.asKeyword_shift k))
  | takeWhile look => exact .ok (beside.takeWhile look)
  | literal kind flavor => exact .ok (beside.takeLiteral kind flavor)
  | label field =>
      exact .ok (beside.onBuilder
        (beside.builder.mapTop (fits rfl) (OpenNode.nameLast_shift k field)))
  | labelNext field =>
      exact .ok (beside.onBuilder (beside.builder.mapTop (fits rfl) fun _ => rfl))
  | retag kind =>
      exact .ok (beside.onBuilder (beside.builder.mapTop (fits rfl) fun _ => rfl))
  | node kind body ih =>
      have opened := beside.builder.startNode kind s.offset
      rw [← beside.offset] at opened
      have deep : left.depth < (s.onBuilder (Builder.startNode kind s.offset)).depth :=
        Nat.lt_succ_of_le beside.builder.le_depth
      refine (ih (beside.onBuilder opened) fun _ => deep).andThen (run_keeps keeps body _) ?_
      intro s' t' beside' hs
      rw [← State.depth_of_below hs] at deep
      exact .ok (beside'.onBuilder (beside'.builder.close deep))
  | wrapLast kind body ih =>
      have deep := fits rfl
      have opened := beside.builder.startAroundLast deep kind s.offset
      rw [← beside.offset] at opened
      have deeper : left.depth < (s.onBuilder (Builder.startAroundLast kind s.offset)).depth :=
        Nat.lt_succ_of_lt deep
      refine (ih (beside.onBuilder opened) fun _ => deeper).andThen (run_keeps keeps body _) ?_
      intro s' t' beside' hs
      rw [← State.depth_of_below hs] at deeper
      exact .ok (beside'.onBuilder (beside'.builder.close deeper))
  | nested category => exact he category s t beside
  | separated go item before after ih₁ ih₂ ih₃ =>
      have size : t.rest.length = s.rest.length := by rw [beside.rest, List.length_map]
      have part : ∀ (rule : Rule), (rule.onlyAdds = false → left.depth < s.depth) →
          (∀ {s t : State}, State.Beside k left right s t →
            (rule.onlyAdds = false → left.depth < s.depth) →
              (rule.run enter s).Beside k left right (rule.run enter t)) →
          ∀ s' t', State.Beside k left right s' t' → s'.builder.below = s.builder.below →
            (rule.run enter s').Keeps s.builder.below ∧
              (rule.run enter s').Beside k left right (rule.run enter t') := by
        intro rule fits ih s' t' beside' hs
        refine ⟨hs ▸ run_keeps keeps rule s', ih beside' fun h => ?_⟩
        rw [State.depth_of_below hs]
        exact fits h
      rw [run, run, size]
      exact runSeparated_beside (part item (fun h => fits (by simp [onlyAdds, h])) ih₁)
        (part before (fun h => fits (by simp [onlyAdds, h])) ih₂)
        (part after (fun h => fits (by simp [onlyAdds, h])) ih₃) _ beside rfl
  | recovering sync item ih =>
      have depth : t.depth = s.depth := (beside.builder.depth_eq same).symm
      have agree := ih beside fits
      rw [run, run, depth]
      exact .ok (agree.recovered same s.depth beside.builder.le_depth sync)
  | items stop sync item ih =>
      have size : t.rest.length = s.rest.length := by rw [beside.rest, List.length_map]
      rw [run, run, size]
      refine .ok (runItems_beside same _ _ (fun s' t' beside' hs => ?_) _ beside rfl)
      refine ⟨hs ▸ run_keeps keeps item s', ih beside' fun h => ?_⟩
      rw [State.depth_of_below hs]
      exact fits h

end

end Rule

theorem enterCategory_beside {k : Nat} {left right : State} (same : left.depth = right.depth)
    (levels : Nat) (category : Category) (s t : State) (beside : State.Beside k left right s t) :
    (enterCategory levels category s).Beside k left right (enterCategory levels category t) := by
  induction levels generalizing category s t with
  | zero => exact .fail beside .tooDeep
  | succ levels ih =>
      have depth : t.depth = s.depth := (beside.builder.depth_eq same).symm
      rw [enterCategory, enterCategory, depth]
      split
      · exact .fail beside .tooDeep
      · refine Rule.run_beside same (enterCategory_keeps levels) ih _ beside fun h => ?_
        rw [Grammar.categoryRule_onlyAdds] at h
        exact absurd h (by simp)

theorem State.finish_beside {k : Nat} {left right : State} (same : left.depth = right.depth)
    (root : left.depth = 1) {first second : Outcome} (beside : first.Beside k left right second) :
    State.Beside k left right (State.finish first) (State.finish second) := by
  have closed : ∀ {s t : State}, State.Beside k left right s t → State.Beside k left right
      (s.closeToRoot.takeWhile .terminator) (t.closeToRoot.takeWhile .terminator) := by
    intro s t beside
    have closes := beside.builder.closeTo same 1 (Nat.le_of_eq root)
    exact (beside.onBuilder closes).takeWhile .terminator
  cases beside with
  | @ok s t beside =>
      simp only [State.finish]
      have start := closed beside
      generalize s.closeToRoot.takeWhile .terminator = s at start ⊢
      generalize t.closeToRoot.takeWhile .terminator = t at start ⊢
      have isEmpty : t.rest.isEmpty = s.rest.isEmpty := by rw [start.rest, List.isEmpty_map]
      cases empty : s.rest.isEmpty with
      | true =>
          rw [isEmpty, empty, if_pos rfl, if_pos rfl]
          exact start.discardRest
      | false =>
          have reported := start.record (.syntactic (s.errorHere .trailing))
          rw [ParseError.shift, ← start.errorHere] at reported
          simp only [isEmpty, empty, Bool.false_eq_true, if_false]
          exact reported.discardRest
  | failed e beside => exact (closed (beside.record (.syntactic e))).discardRest

/-! ## A run at its own place -/

theorem Token.shift_zero (t : Token) : t.shift 0 = t := by
  have trivia : ∀ list : List Trivia, list.map (Trivia.shift 0) = list := by
    exact List.map_id
  simp only [Token.shift, trivia]
  rfl

theorem State.beside_self {s : State} (unnamed : s.builder.top.pending = none) :
    State.Beside 0 s s s s :=
  .start (by rw [show Token.shift 0 = id from funext Token.shift_zero, List.map_id])
    s.endOfInput.shift_zero.symm unnamed unnamed

/-- A rule that only adds children leaves the node in which it starts as it was but for them. -/
theorem Rule.run_extends {rule : Rule} (adds : rule.onlyAdds = true) {levels : Nat} {s s' : State}
    (unnamed : s.builder.top.pending = none) (run : rule.run (enterCategory levels) s = .ok s') :
    ∃ new, s'.builder = ⟨s.builder.top.extend new, s.builder.below⟩ := by
  have beside := Rule.run_beside rfl (enterCategory_keeps levels)
    (enterCategory_beside rfl levels) rule (State.beside_self unnamed) (by simp [adds])
  have keeps := Rule.run_keeps (enterCategory_keeps levels) rule s
  rw [run] at beside keeps
  cases beside with
  | ok beside =>
      obtain ⟨new, eq, -⟩ := beside.builder.grown (State.depth_of_below keeps)
      exact ⟨new, eq⟩

theorem Rule.Rounds.extends (rule : Rule) (adds : rule.onlyAdds = true) (levels : Nat)
    (sync : SyncSet) {s t : State} (unnamed : s.builder.top.pending = none)
    (rounds : Rounds sync (rule.run (enterCategory levels)) s t) :
    ∃ new, t.builder = ⟨s.builder.top.extend new, s.builder.below⟩ := by
  have beside : State.Beside 0 s s t t := by
    induction rounds with
    | refl => exact State.beside_self unnamed
    | tail _ round ih =>
        cases round with
        | terminators => exact ih.takeWhile .terminator
        | item =>
            exact itemRound_beside rfl sync ih (run_beside rfl (enterCategory_keeps levels)
              (enterCategory_beside rfl levels) rule ih (by simp [adds]))
  have below := rounds.below (run_keeps (enterCategory_keeps levels) rule)
  obtain ⟨new, eq, -⟩ := beside.builder.grown (State.depth_of_below below)
  exact ⟨new, eq⟩

end UmkaSyntax
