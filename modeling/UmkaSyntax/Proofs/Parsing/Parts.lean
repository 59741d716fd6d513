import UmkaSyntax.Proofs.Parsing.Progress
import UmkaSyntax.Proofs.Parsing.Relocation
import UmkaSyntax.Proofs.Tree.Part

namespace UmkaSyntax
open UmkaSyntax.Part

theorem OpenNode.kind_add (child : Child) (n : OpenNode) :
    (n.add child).kind = n.kind ∧ (n.add child).offset = n.offset ∧ (n.add child).pending = none := by
  unfold add nameLast
  cases n.pending with
  | none => exact ⟨rfl, rfl, rfl⟩
  | some field => simp

theorem OpenNode.kind_nameLast (field : FieldName) (n : OpenNode) :
    (n.nameLast field).kind = n.kind ∧ (n.nameLast field).offset = n.offset ∧
      (n.nameLast field).pending = n.pending := by
  unfold nameLast
  split <;> exact ⟨rfl, rfl, rfl⟩

theorem OpenNode.Shows.eq {n m : OpenNode} {parts : List Part} (hn : n.Shows parts)
    (hm : m.Shows parts) (kind : n.kind = m.kind) (offset : n.offset = m.offset)
    (pending : n.pending = m.pending) : n = m := by
  have children := Array.toList_inj.mp (hn.children.trans hm.children.symm)
  have fields := hn.fields.trans hm.fields.symm
  cases n
  cases m
  simp_all

namespace Builder

/-- The open node has grown by the parts, and no name waits for a child. -/
structure Grows (b c : Builder) (parts : List Part) : Prop where
  below : c.below = b.below
  kind : c.top.kind = b.top.kind
  offset : c.top.offset = b.top.offset
  pending : c.top.pending = none
  shows : ∀ before, b.top.Shows before → c.top.Shows (before ++ parts)

variable {b c d : Builder} {parts more : List Part} {part : Part}

theorem Grows.refl (pending : b.top.pending = none) : b.Grows b [] :=
  ⟨rfl, rfl, rfl, pending, fun before shows => by simpa using shows⟩

theorem Grows.trans (first : b.Grows c parts) (second : c.Grows d more) :
    b.Grows d (parts ++ more) where
  below := second.below.trans first.below
  kind := second.kind.trans first.kind
  offset := second.offset.trans first.offset
  pending := second.pending
  shows before shows := by
    rw [← List.append_assoc]
    exact second.shows _ (first.shows before shows)

theorem Grows.depth_eq (grows : b.Grows c parts) : c.depth = b.depth := by
  rw [depth, grows.below, depth]

theorem add_grows (label : part.label = b.top.pending) : b.Grows (b.add part.toChild) [part] where
  below := rfl
  kind := (OpenNode.kind_add _ _).1
  offset := (OpenNode.kind_add _ _).2.1
  pending := (OpenNode.kind_add _ _).2.2
  shows _ shows := shows.add label

theorem Grows.of_pending {pending : Option FieldName}
    (grows : (b.mapTop fun n => { n with pending := pending }).Grows c parts) : b.Grows c parts :=
  ⟨grows.below, grows.kind, grows.offset, grows.pending,
    fun before shows => grows.shows before ⟨shows.children, shows.fields⟩⟩

theorem Grows.nameLast (grows : b.Grows c [part]) (unnamed : part.label = none) (field : FieldName) :
    b.Grows (c.mapTop (OpenNode.nameLast field)) [part.named field] where
  below := grows.below
  kind := (OpenNode.kind_nameLast _ _).1.trans grows.kind
  offset := (OpenNode.kind_nameLast _ _).2.1.trans grows.offset
  pending := (OpenNode.kind_nameLast _ _).2.2.trans grows.pending
  shows before shows := (grows.shows before shows).nameLast unnamed field

theorem Grows.retag (grows : b.Grows c parts) (kind : NodeKind) :
    (b.mapTop fun n => { n with kind := kind }).Grows (c.mapTop fun n => { n with kind := kind })
      parts where
  below := grows.below
  kind := rfl
  offset := grows.offset
  pending := grows.pending
  shows before shows :=
    have shown := grows.shows before ⟨shows.children, shows.fields⟩
    ⟨shown.children, shown.fields⟩

theorem Grows.add_node {kind : NodeKind} {offset : Nat} (grows : (b.startNode kind offset).Grows c parts)
    (filled : parts ≠ []) (whole : Bool) :
    b.Grows (b.add (.node c.top.toNode)) [.node b.top.pending kind whole parts] := by
  have shown : c.top.Shows parts := by
    simpa using grows.shows [] (OpenNode.empty_shows kind offset)
  have kept : c.top.kind = kind := grows.kind
  have child := shown.toChild filled b.top.pending whole
  rw [kept] at child
  rw [child]
  exact add_grows rfl

theorem Grows.close {kind : NodeKind} {offset : Nat} (grows : (b.startNode kind offset).Grows c parts)
    (filled : parts ≠ []) : b.Grows c.close [.node b.top.pending kind true parts] := by
  rw [close_of_below grows.below]
  exact grows.add_node filled true

theorem closeTo_grows : b.Grows (b.closeTo b.depth) [] := by
  rw [closeTo_of_le (Nat.le_refl _)]
  exact ⟨rfl, rfl, rfl, rfl, fun before shows => by
    rw [List.append_nil]
    exact ⟨shows.children, shows.fields⟩⟩

theorem closeTo_closeTo {depth deeper : Nat} (le : depth ≤ deeper) (b : Builder) :
    (b.closeTo deeper).closeTo depth = b.closeTo depth := by
  suffices closed : ∀ (below : List OpenNode) (top : OpenNode),
      (closeDown deeper top below).closeTo depth = closeDown depth top below from closed b.below b.top
  intro below
  induction below with
  | nil => exact fun _ => rfl
  | cons outer below ih =>
      intro top
      by_cases fits : below.length + 2 ≤ deeper
      · rw [closeDown, if_pos fits, closeTo, closeDown, closeDown]
        by_cases fits' : below.length + 2 ≤ depth
        · rw [if_pos fits', if_pos fits']
        · rw [if_neg fits', if_neg fits']
          rfl
      · have fits' : ¬ below.length + 2 ≤ depth := fun h => fits (Nat.le_trans h le)
        rw [closeDown, if_neg fits, closeDown, if_neg fits']
        split
        · exact ih _
        · exact ih _

theorem Grows.closeTo {kind : NodeKind} {offset : Nat}
    (grows : (b.startNode kind offset).Grows (c.closeTo (b.depth + 1)) parts) :
    b.Grows (c.closeTo b.depth)
      (if parts = [] then [] else [.node b.top.pending kind false parts]) := by
  have shown : (c.closeTo (b.depth + 1)).top.Shows parts := by
    simpa using grows.shows [] (OpenNode.empty_shows kind offset)
  have below : (c.closeTo (b.depth + 1)).below = b.top :: b.below := grows.below
  have pushed : c.closeTo (b.depth + 1) = b.push (c.closeTo (b.depth + 1)).top := by
    rw [push, ← below]
  rw [← closeTo_closeTo (Nat.le_succ b.depth) c, pushed, closeTo_push (Nat.le_refl _)]
  by_cases none : parts = []
  · rw [if_pos (shown.isEmpty_iff.mpr none), if_pos none]
    exact closeTo_grows
  · rw [if_neg (mt shown.isEmpty_iff.mp none), if_neg none]
    have added := grows.add_node none false
    have closed := added.trans closeTo_grows
    rwa [added.depth_eq] at closed

theorem Grows.startAroundLast (grows : b.Grows c [part]) (unnamed : part.label = none)
    {before : List Part} (shows : b.top.Shows before) (idle : b.top.pending = none) (kind : NodeKind)
    (offset : Nat) :
    (b.startNode kind (c.startAroundLast kind offset).top.offset).Grows
      (c.startAroundLast kind offset) [part] := by
  obtain ⟨outer, inner⟩ := (grows.shows before shows).split unnamed kind offset
  refine ⟨?_, rfl, rfl, rfl, ?_⟩
  · have same : (c.top.split (c.top.children.size - 1) kind offset).1 = b.top :=
      outer.eq shows grows.kind grows.offset (grows.pending.trans idle.symm)
    change (c.top.split (c.top.children.size - 1) kind offset).1 :: c.below = b.top :: b.below
    rw [same, grows.below]
  · intro before shows
    obtain rfl : before = [] := by
      have size := shows.size_eq
      exact List.length_eq_zero_iff.mp size.symm
    exact inner

end Builder

def ParseError.lexical? : ParseError → Option LexicalError
  | lexical e => some e
  | syntactic _ => none

namespace State

def lexicalErrors (s : State) : List LexicalError := s.errors.toList.filterMap ParseError.lexical?

structure Grows (s t : State) (parts : List Part) : Prop where
  rest : s.rest = tokensOf parts ++ t.rest
  endOfInput : t.endOfInput = s.endOfInput
  lexical : t.lexicalErrors = s.lexicalErrors ++ errorsOf parts
  builder : s.builder.Grows t.builder parts

variable {s t u : State} {parts more : List Part} {part : Part}

theorem Grows.refl (pending : s.builder.top.pending = none) : s.Grows s [] :=
  ⟨rfl, rfl, by simp [errorsOf], .refl pending⟩

theorem Grows.trans (first : s.Grows t parts) (second : t.Grows u more) : s.Grows u (parts ++ more) where
  rest := by rw [first.rest, second.rest, tokensOf_append, List.append_assoc]
  endOfInput := second.endOfInput.trans first.endOfInput
  lexical := by rw [second.lexical, first.lexical, errorsOf_append, List.append_assoc]
  builder := first.builder.trans second.builder

theorem Grows.depth_eq (grows : s.Grows t parts) : t.depth = s.depth := grows.builder.depth_eq

theorem Grows.pending (grows : s.Grows t parts) : t.builder.top.pending = none :=
  grows.builder.pending

theorem Grows.kindAhead_eq (grows : s.Grows t parts) :
    kindAhead s.rest = firstKind parts (kindAhead t.rest) := by
  rw [grows.rest, kindAhead_append]

def closedTo (depth : Nat) (s : State) : State := s.onBuilder (Builder.closeTo depth)

theorem Grows.close {kind : NodeKind} {offset : Nat}
    (grows : (s.onBuilder (Builder.startNode kind offset)).Grows t parts) (filled : parts ≠ []) :
    s.Grows (t.onBuilder Builder.close) [.node s.builder.top.pending kind true parts] where
  rest := by
    rw [tokensOf_node]
    exact grows.rest
  endOfInput := grows.endOfInput
  lexical := by
    rw [errorsOf_node]
    exact grows.lexical
  builder := grows.builder.close filled

theorem Grows.closedTo {kind : NodeKind} {offset : Nat}
    (grows : (s.onBuilder (Builder.startNode kind offset)).Grows (t.closedTo (s.depth + 1)) parts) :
    s.Grows (t.closedTo s.depth)
      (if parts = [] then [] else [.node s.builder.top.pending kind false parts]) where
  rest := by
    split
    next none => exact none ▸ grows.rest
    next =>
      rw [tokensOf_node]
      exact grows.rest
  endOfInput := grows.endOfInput
  lexical := by
    split
    next none => exact none ▸ grows.lexical
    next =>
      rw [errorsOf_node]
      exact grows.lexical
  builder := grows.builder.closeTo

theorem closedTo_grows : s.Grows (s.closedTo s.depth) [] :=
  ⟨rfl, rfl, by simp [errorsOf, lexicalErrors, State.closedTo, onBuilder], Builder.closeTo_grows⟩

theorem Grows.of_pending {pending : Option FieldName}
    (grows : (s.onBuilder (Builder.mapTop fun n => { n with pending := pending })).Grows t parts) :
    s.Grows t parts :=
  ⟨grows.rest, grows.endOfInput, grows.lexical, grows.builder.of_pending⟩

theorem Grows.nameLast (grows : s.Grows t [part]) (unnamed : part.label = none) (field : FieldName) :
    s.Grows (t.onBuilder (Builder.mapTop (OpenNode.nameLast field))) [part.named field] where
  rest := by
    rw [tokensOf, tokens_named]
    exact grows.rest
  endOfInput := grows.endOfInput
  lexical := by
    rw [errorsOf, errors_named]
    exact grows.lexical
  builder := grows.builder.nameLast unnamed field

theorem Grows.retag (grows : s.Grows t parts) (kind : NodeKind) :
    (s.onBuilder (Builder.mapTop fun n => { n with kind := kind })).Grows
      (t.onBuilder (Builder.mapTop fun n => { n with kind := kind })) parts :=
  ⟨grows.rest, grows.endOfInput, grows.lexical, grows.builder.retag kind⟩

theorem Grows.startAroundLast (grows : s.Grows t [part]) (unnamed : part.label = none)
    {before : List Part} (shows : s.builder.top.Shows before) (idle : s.builder.top.pending = none)
    (kind : NodeKind) (offset : Nat) :
    (s.onBuilder (Builder.startNode kind (t.builder.startAroundLast kind offset).top.offset)).Grows
      (t.onBuilder (Builder.startAroundLast kind offset)) [part] :=
  ⟨grows.rest, grows.endOfInput, grows.lexical,
    grows.builder.startAroundLast unnamed shows idle kind offset⟩

theorem note_grows (event : Event) (pending : s.builder.top.pending = none) :
    s.Grows (s.note event) [] :=
  ⟨rfl, rfl, by simp [errorsOf, lexicalErrors, note], .refl pending⟩

theorem lexicalErrors_record (e : SyntaxError) (s : State) :
    (s.record (.syntactic e)).lexicalErrors = s.lexicalErrors := by
  simp [lexicalErrors, record, ParseError.lexical?]

theorem lexicalErrors_recordLexical (errors : List LexicalError) (s : State) :
    (s.recordLexical errors).lexicalErrors = s.lexicalErrors ++ errors := by
  have same : errors.filterMap (fun e => (ParseError.lexical e).lexical?) = errors :=
    List.filterMap_some
  simpa [lexicalErrors, recordLexical, List.filterMap_map] using same

theorem take_grows {token : Token} {rest : List Token} (ahead : s.rest = token :: rest) :
    s.Grows s.take [.token s.builder.top.pending token] := by
  rw [take, takeAs, ahead]
  exact ⟨ahead, rfl, by simp [errorsOf, Part.errors, lexicalErrors],
    @Builder.add_grows s.builder (.token _ token) rfl⟩

theorem takeKeyword_grows {token : Token} {rest : List Token} (ahead : s.rest = token :: rest) :
    s.Grows (s.takeAs asKeyword) [.keyword s.builder.top.pending token] := by
  rw [takeAs, ahead]
  exact ⟨ahead, rfl, by simp [errorsOf, Part.errors, lexicalErrors],
    @Builder.add_grows s.builder (.keyword _ token) rfl⟩

theorem takeLiteral_grows {token : Token} {rest : List Token} (ahead : s.rest = token :: rest)
    (kind : NodeKind) :
    s.Grows (s.takeLiteral kind kind.flavor) [.literal s.builder.top.pending kind token] := by
  rw [takeLiteral, ahead]
  dsimp only
  refine ⟨ahead, rfl, ?_, @Builder.add_grows s.builder (.literal _ kind token) rfl⟩
  rw [lexicalErrors_recordLexical]
  simp [errorsOf, Part.errors, lexicalErrors]

theorem takeWhile_grows {look : Look} {kinds : List TokenKind}
    (test : ∀ tokens, look.holds tokens = kinds.contains (kindAhead tokens))
    (within : .endOfInput ∉ kinds) (pending : s.builder.top.pending = none) :
    ∃ taken : List Token, s.Grows (s.takeWhile look) (taken.map (.token none)) ∧
      (∀ t ∈ taken, t.kind ∈ kinds) ∧ kindAhead (s.takeWhile look).rest ∉ kinds := by
  -- The bound on the tokens is never met: it is as many as there are.
  suffices counted : ∀ count (s : State), s.rest.length ≤ count → s.builder.top.pending = none →
      ∃ taken : List Token, s.Grows (takeUpTo look count s) (taken.map (.token none)) ∧
        (∀ t ∈ taken, t.kind ∈ kinds) ∧ kindAhead (takeUpTo look count s).rest ∉ kinds from
    counted _ s (Nat.le_refl _) pending
  intro count
  induction count with
  | zero =>
      intro s none pending
      refine ⟨[], .refl pending, by simp, ?_⟩
      rw [takeUpTo, List.length_eq_zero_iff.mp (Nat.le_zero.mp none)]
      exact within
  | succ count ih =>
      intro s enough pending
      rw [takeUpTo, test]
      by_cases mem : kindAhead s.rest ∈ kinds
      · rw [if_pos (by simpa using mem)]
        cases ahead : s.rest with
        | nil =>
            rw [ahead] at mem
            exact absurd mem within
        | cons token rest =>
            have grows := take_grows ahead
            rw [pending] at grows
            have shorter : s.take.rest.length ≤ count := by
              rw [take, takeAs, ahead]
              simpa [ahead] using enough
            obtain ⟨taken, more, all, stops⟩ := ih s.take shorter grows.pending
            refine ⟨token :: taken, grows.trans more, ?_, stops⟩
            rw [ahead] at mem
            exact List.forall_mem_cons.mpr ⟨mem, all⟩
      · rw [if_neg (by simpa using mem)]
        exact ⟨[], .refl pending, by simp, mem⟩

end State

def rawPart (t : Token) : Part :=
  match t.kind with
  | .string _ => .literal none .stringLiteral t
  | .character _ => .literal none .charLiteral t
  | _ => .token none t

theorem salvage_eq (t : Token) : State.salvage t = ((rawPart t).toChild, (rawPart t).errors) := by
  unfold State.salvage rawPart
  cases t.kind <;> rfl

theorem label_rawPart (t : Token) : (rawPart t).label = none := by
  unfold rawPart
  split <;> rfl

theorem tokens_rawPart (t : Token) : (rawPart t).tokens = [t] := by
  unfold rawPart
  split <;> rfl

theorem tokensOf_map_rawPart (tokens : List Token) : tokensOf (tokens.map rawPart) = tokens := by
  induction tokens with
  | nil => rfl
  | cons t tokens ih => rw [List.map_cons, tokensOf, tokens_rawPart, ih, List.singleton_append]

theorem errorsOf_eq_flatMap (parts : List Part) : errorsOf parts = parts.flatMap errors := by
  induction parts with
  | nil => rfl
  | cons part parts ih => rw [errorsOf, ih, List.flatMap_cons]

theorem fieldsOf_none {labels : List (Option FieldName)} (unnamed : ∀ label ∈ labels, label = none) :
    fieldsOf labels = [] := by
  rw [List.eq_nil_iff_forall_not_mem]
  intro field mem
  have named := (((fieldsOf_spec labels).2 field).mp mem).1
  cases unnamed _ named

namespace State

variable {s t : State} {parts : List Part}

theorem discard_grows (count : Nat) (pending : s.builder.top.pending = none)
    (some : s.rest.take count ≠ []) :
    s.Grows (s.discard count) [.node none .error true ((s.rest.take count).map rawPart)] := by
  obtain ⟨first, others, eq⟩ := List.exists_cons_of_ne_nil some
  have unnamed : fieldsOf (((first :: others).map rawPart).map Part.label) = [] := by
    refine fieldsOf_none fun label mem => ?_
    obtain ⟨part, isRaw, rfl⟩ := List.mem_map.mp mem
    obtain ⟨t, -, rfl⟩ := List.mem_map.mp isRaw
    exact label_rawPart t
  have children : ((first :: others).map salvage).map (·.1) =
      toChildren ((first :: others).map rawPart) := by
    rw [toChildren_eq_map, List.map_map, List.map_map]
    exact List.map_congr_left fun t _ => by simp [salvage_eq]
  have errors : ((first :: others).map salvage).flatMap (·.2) =
      errorsOf ((first :: others).map rawPart) := by
    rw [errorsOf_eq_flatMap, List.flatMap_map, List.flatMap_map]
    exact List.flatMap_congr fun t _ => by simp [salvage_eq]
  have node : Child.node (Node.ofChildren .error (((first :: others).map salvage).map (·.1)) []
      s.offset) = (Part.node none .error true ((first :: others).map rawPart)).toChild := by
    rw [Part.toChild, children, unnamed]
    rfl
  have discarded : s.discard count =
      ({ s with rest := s.rest.drop count, builder := s.builder.add (Part.node none .error true
        ((first :: others).map rawPart)).toChild } : State).recordLexical
          (errorsOf ((first :: others).map rawPart)) := by
    rw [← node, ← errors]
    unfold discard
    rw [eq]
    rfl
  rw [discarded, eq]
  refine ⟨?_, rfl, ?_, Builder.add_grows pending.symm⟩
  · change s.rest = tokensOf [.node none .error true ((first :: others).map rawPart)] ++
      s.rest.drop count
    simp only [tokensOf, Part.tokens, List.append_nil, tokensOf_map_rawPart]
    rw [← eq, List.take_append_drop]
  · rw [lexicalErrors_recordLexical]
    simp [lexicalErrors, errorsOf, Part.errors]

end State

end UmkaSyntax
