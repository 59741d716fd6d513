import UmkaSyntax.Proofs.Parsing.Function

/-!
The statements of a function. A statement with a mistake leaves those behind it alone exactly when
the function with that statement alone is still one function: recovery then resumes in the body.
-/

namespace UmkaSyntax

namespace Function

theorem nodes_declaration {s : State} (ahead : s.rest ≠ [])
    (unnamed : s.builder.top.pending = none) :
    let after := Rule.itemRound .topLevel (Grammar.declaration.run (enterCategory nestingLimit)) s
    after.builder.below = s.builder.below ∧ after.builder.top.pending = none ∧
      s.nodes.length < after.nodes.length := by
  have keeps := Rule.run_keeps (enterCategory_keeps nestingLimit) Grammar.declaration s
  have below := Rule.below_itemRound .topLevel keeps
  have beside := State.beside_self unnamed
  have round := Rule.itemRound_beside rfl .topLevel beside
    (Rule.run_beside rfl (enterCategory_keeps nestingLimit)
      (enterCategory_beside rfl nestingLimit) Grammar.declaration beside fun h => absurd h (by decide))
  obtain ⟨new, grown, -⟩ := round.builder.grown (State.depth_of_below below)
  exact ⟨below, congrArg (·.top.pending) grown,
    Rule.itemRound_nodes _ (Rule.run_reaches (enterCategory_reaches nestingLimit) _) ahead
      (Rule.run_addsNode (enterCategory_keeps nestingLimit) _ Grammar.declaration_addsNode s)⟩

theorem nodes_declarations {s : State} (root : s.builder.below = [])
    (unnamed : s.builder.top.pending = none) {t : Token} {more : List Token}
    (ahead : (s.takeWhile .terminator).rest = t :: more) (other : t.kind ≠ .endOfInput) {n : Nat}
    (positive : 0 < n) : s.nodes.length < (State.finish (.ok (s.declarations n))).nodes.length := by
  obtain ⟨n, rfl⟩ := Nat.exists_eq_succ_of_ne_zero (Nat.ne_of_gt positive)
  have below := (State.below_takeWhile .terminator s).trans root
  have nodes := State.nodes_takeWhile .terminator s
  have begin := ((State.beside_self unnamed).takeWhile .terminator).builder.grown
    (State.depth_of_below (State.below_takeWhile .terminator s))
  have goes : (Look.atEnd.holds (s.takeWhile .terminator).rest ||
      (s.takeWhile .terminator).rest.isEmpty) = false := by
    rw [ahead]
    simpa [Look.atEnd, Look.holds] using other
  rw [State.declarations, Rule.runItems_succ, goes, if_neg Bool.false_ne_true]
  generalize s.takeWhile .terminator = u at *
  obtain ⟨new, grown, -⟩ := begin
  obtain ⟨below', unnamed', round⟩ := nodes_declaration (s := u) (by simp [ahead])
    (congrArg (·.top.pending) grown)
  generalize Rule.itemRound .topLevel (Grammar.declaration.run (enterCategory nestingLimit)) u = v at *
  have after := State.finish_beside rfl (congrArg (·.length + 1) (below'.trans below))
    (.ok ((State.beside_self unnamed').declarations rfl n))
  have last := after.nodes_le (by rw [(State.finish_ends _).2, below', below])
  rw [nodes] at round
  exact Nat.lt_of_lt_of_le round last

def statementTokens (more : List Char) : List Token :=
  ((TokenStream.tokensBehind more).map (Token.shift 9)).dropWhile (·.kind.isTerminator)

theorem statementTokens_begins (more : List Char) (k : Nat) :
    ∀ t ∈ ((statementTokens more).map (Token.shift k)).head?, t.kind.role ≠ .terminator := by
  intro t head
  rw [List.head?_map] at head
  obtain ⟨u, first, rfl⟩ := Option.map_eq_some_iff.mp head
  have stops := List.head?_dropWhile_not (·.kind.isTerminator)
    ((TokenStream.tokensBehind more).map (Token.shift 9))
  rw [← statementTokens, first] at stops
  exact fun role => Bool.false_ne_true (stops.symm.trans (TokenKind.role_eq_terminator.mp role))

theorem bodyTokens_append {cs : List Char} (ends : EndsLine cs) :
    ∃ (segment : List Token) (last : Token), last.kind = .newline ∧
      segment.map (·.kind) ++ [.newline] =
        .newline :: (TokenStream.ofText cs).tokens.map (·.kind) ∧
      ∀ ds, ∃ trailing terminators, (∀ t ∈ terminators, t.kind.isTerminator = true) ∧
        bodyTokens (cs ++ ds) = segment ++ ({ last with trailing := trailing } :: terminators ++
          (statementTokens ds).map (Token.shift (byteLength cs))) := by
  obtain ⟨init, last, alone, kind, -⟩ := TokenStream.tokensOf_append false ends []
  have kinds : (TokenStream.tokensBehind cs).map (·.kind) =
      (TokenStream.ofText cs).tokens.map (·.kind) :=
    (TokenStream.kinds_attach ..).trans (TokenStream.kinds_attach ..).symm
  refine ⟨newline ((TokenStream.gapBefore cs).map (Trivia.shift 9)) :: init.map (Token.shift 9),
    last.shift 9, kind, ?_, fun ds => ?_⟩
  · rw [← kinds, TokenStream.tokensBehind, alone]
    simp [newline, Token.shift, kind]
  · obtain ⟨init', last', alone', -, -, whole⟩ := TokenStream.tokensOf_append false ends ds
    obtain ⟨rfl, eq⟩ := List.append_inj' (alone.symm.trans alone') rfl
    obtain ⟨rfl, -⟩ := List.cons.inj eq
    let moved := ((TokenStream.tokensBehind ds).map (Token.shift 9)).map (Token.shift (byteLength cs))
    refine ⟨((TokenStream.gapBefore ds).map (Trivia.shift (byteLength cs))).map (Trivia.shift 9),
      moved.takeWhile (·.kind.isTerminator), fun t mem =>
      List.mem_takeWhile_imp (p := fun t : Token => t.kind.isTerminator) mem, ?_⟩
    have later : moved = (((TokenStream.tokensBehind ds).map (Token.shift (byteLength cs))).map
        (Token.shift 9)) := by
      simp only [moved, List.map_map]
      exact List.map_congr_left fun t _ => Token.shift_comm 9 (byteLength cs) t
    have behind : (statementTokens ds).map (Token.shift (byteLength cs)) =
        moved.dropWhile (·.kind.isTerminator) := by
      simp only [statementTokens, moved, List.dropWhile_map]
      rfl
    rw [behind, List.cons_append, List.cons_append, List.takeWhile_append_dropWhile, later, bodyTokens,
      TokenStream.gapBefore_append ends, TokenStream.tokensBehind, whole, List.map_append, List.map_cons]
    rfl

theorem exists_fork {cs : List Char} (ends : EndsLine (cs ++ ['\n']))
    (balanced : Balanced (TokenStream.ofText cs).tokens) (ds ds' : List Char) :
    ∃ fork : Fork,
      fork.left = (statementTokens ds).map (Token.shift (byteLength (cs ++ ['\n']))) ∧ 
      fork.right = (statementTokens ds').map (Token.shift (byteLength (cs ++ ['\n']))) ∧ 
      fork.Within [] (bodyState (cs ++ ['\n'] ++ ds)) (bodyState (cs ++ ['\n'] ++ ds')) := by
  obtain ⟨segment, last, isNewline, kinds, cut⟩ := bodyTokens_append ends
  obtain ⟨trailing, terminators, isTerminator, whole⟩ := cut ds
  obtain ⟨trailing', terminators', isTerminator', whole'⟩ := cut ds'
  have lines : ∀ {trailing : List Trivia} {terminators : List Token},
      (∀ t ∈ terminators, t.kind.isTerminator = true) →
        ∀ t ∈ ({ last with trailing := trailing } : Token) :: terminators,
          t.kind.role = .terminator := by
    intro trailing terminators isTerminator t mem
    rw [TokenKind.role_eq_terminator]
    rcases List.mem_cons.mp mem with rfl | mem
    · exact congrArg TokenKind.isTerminator isNewline
    · exact isTerminator t mem
  -- Only the trivia behind the newline and the terminators after it depend on what comes behind
  -- the line.
  let fork : Fork :=
    { leftEnd := { last with trailing := trailing } :: terminators
      left := (statementTokens ds).map (Token.shift (byteLength (cs ++ ['\n'])))
      rightEnd := { last with trailing := trailing' } :: terminators'
      right := (statementTokens ds').map (Token.shift (byteLength (cs ++ ['\n'])))
      terminators_left := lines isTerminator
      terminators_right := lines isTerminator'
      meet := ⟨_, _, _, _, rfl, rfl, rfl, rfl⟩
      stops_left := statementTokens_begins ds _
      stops_right := statementTokens_begins ds' _ }
  have rest : ∀ more, (bodyState more).rest = bodyTokens more := fun _ => rfl
  have alike : ∀ more more', (bodyState more').builder = (bodyState more).builder ∧
      (bodyState more').errors = (bodyState more).errors := fun _ _ => ⟨rfl, rfl⟩
  refine ⟨fork, rfl, rfl, ⟨segment, (rest _).trans whole, (rest _).trans whole', ?_⟩,
    (alike _ _).1, fun _ => (alike _ _).2⟩
  rw [TokenStream.kinds_newline ends, ← List.cons_append] at kinds
  have same := List.append_cancel_right kinds
  rw [← isNewline, ← List.map_cons (f := (·.kind)) (a := last)] at same
  rw [missingAfter_of_kinds same, missingAfter, isNewline]
  exact balanced

theorem close_joint {fork : Fork} {due : List Punct} {s t : State} (within : fork.Within due s t)
    (stops : (Look.punct .rightBrace).holds s.rest = true) (levels : Nat) :
    fork.EndJoint [] (close levels s) (close levels t) := by
  have foresees := Look.foresight_holds stops
  obtain ⟨token, segment, role, -, -, balanced, -⟩ :=
    Fork.head_of_foresight within foresees (by decide)
  obtain ⟨outer, rfl, -⟩ := missingAfter_closing (p := .rightBrace) role balanced
  have sublist : ([.rightBrace] ++ [] : List Punct).Sublist (.rightBrace :: outer) :=
    List.cons_sublist_cons.mpr (List.nil_sublist _)
  have brace : fork.FlowJoint [] _ _ _ :=
    Fork.run_joint (enterCategory_reaches levels) (Fork.enterCategory_joint levels)
      (.expect .rightBrace) (show (Rule.expect .rightBrace).flow false _ _ ≠ .astray by decide)
      (by simp) within sublist foresees
  have terminates := fun ahead held (due : List Punct) (u v : State)
      (safe : Rule.terminator.flow false ahead held ≠ .astray) (within : fork.Within due u v)
      (sublist : (held ++ []).Sublist due) (foresees : ahead.Holds u.rest) =>
    Fork.run_joint (enterCategory_reaches (levels + 1)) (Fork.enterCategory_joint (levels + 1))
      Rule.terminator safe (by simp) within sublist foresees
  have ending := (brace.close.andThen (by decide) terminates).close
  exact Fork.FlowJoint.endJoint (show fork.FlowJoint [] (.goes [] [] false) _ _ from ending)

/-- The statements of two bodies that begin alike are parsed alike up to a brace that closes the
function early, or up to where the bodies begin to differ. -/
theorem statements_joint {fork : Fork} {s t : State} (within : fork.Within [] s t) (levels : Nat) :
    (∃ due, fork.Within due (statements levels s) (statements levels t) ∧
        (Look.punct .rightBrace).holds (statements levels s).rest = true) ∨
      ∃ s' t' n n', fork.Past s' t' ∧ fork.left.length < n ∧ fork.right.length < n' ∧
        Rule.Rounds .block (statement levels) s s' ∧ Rule.Rounds .block (statement levels) t t' ∧
        statements levels s = Rule.runItems (.punct .rightBrace) .block (statement levels) n s' ∧
        statements levels t = Rule.runItems (.punct .rightBrace) .block (statement levels) n' t' := by
  obtain ⟨ahead, stays, flow⟩ := Grammar.statement_flow
  rcases fork.runItems_joint (.punct .rightBrace) .block rfl (by simp)
      (Rule.run_reaches (enterCategory_reaches levels) _)
      (fun due s t within sublist => Fork.endJoint_of_flow flow within sublist trivial) _ _ within
      (List.Sublist.refl []) (Nat.lt_succ_self _) (Nat.lt_succ_self _) with
    ⟨due, s', t', within', -, stops, hs, ht⟩ | ⟨-, drained⟩
  · subst hs ht
    exact .inl ⟨due, within', stops⟩
  · exact .inr drained

theorem ahead_of_joint {fork : Fork} {s t : State} (joint : fork.Joint [] s t)
    (more : fork.left ≠ []) : (s.takeWhile .terminator).rest ≠ [] := by
  rcases joint with ⟨due, within, -⟩ | ⟨-, past⟩
  · rcases within.takeWhile Look.terminators?_terminator with
      ⟨-, t, rest, ahead, -⟩ | ⟨-, past⟩
    · simp [ahead]
    · rw [(past rfl).rest_left]
      exact more
  · rw [State.takeWhile_terminator_of_stops (past.rest_left ▸ fork.stops_left), past.rest_left]
    exact more

theorem afterFunction_root (more : List Char) :
    (afterFunction more).builder.below = [] ∧ (afterFunction more).builder.top.pending = none ∧
      0 < (afterFunction more).nodes.length := by
  obtain ⟨below, unnamed, nodes⟩ :=
    nodes_declaration (s := State.initial .program (TokenStream.ofText (header ++ more)))
      (by simp [initial_rest, opening]) rfl
  rw [itemRound_header] at below unnamed nodes
  exact ⟨below, unnamed, nodes⟩

theorem two_nodes {cs ds : List Char} {fork : Fork} {due : List Punct} {t : State}
    (within : fork.Within due (statements inner (bodyState (cs ++ ds))) t)
    (stops : (Look.punct .rightBrace).holds (statements inner (bodyState (cs ++ ds))).rest = true)
    (more : fork.left ≠ []) :
    1 < (parseStream .program (TokenStream.ofText (header ++ (cs ++ ds)))).nodes.length := by
  have joint := (close_joint within stops inner).recovered .topLevel (by simp) 1
  obtain ⟨root, unnamed, filled⟩ := afterFunction_root (cs ++ ds)
  obtain ⟨n, enough, run⟩ := parseStream_header (cs ++ ds)
  rw [← afterFunction] at joint
  obtain ⟨u, rest, ahead⟩ := List.exists_cons_of_ne_nil (ahead_of_joint joint more)
  have other : u.kind ≠ .endOfInput := by
    have steps : State.Steps _ _ :=
      (afterFunction_steps (cs ++ ds)).trans (State.takeWhile_steps .terminator _)
    obtain ⟨-, taken, -, cut, -⟩ := steps.advances
    have body : u ∈ bodyTokens (cs ++ ds) := by
      rw [show bodyTokens (cs ++ ds) = _ from cut, ahead]
      exact List.mem_append_right _ List.mem_cons_self
    exact (TokenStream.token_origin
      (tokens_header_append (cs ++ ds) ▸ List.mem_append_right _ body)).1
  have grows := nodes_declarations root unnamed ahead other (Nat.lt_of_le_of_lt (Nat.zero_le _) enough)
  rw [run]
  omega

theorem endOfInput_header (more : List Char) :
    (bodyState more).endOfInput =
      Token.bare .endOfInput (Span.emptyAt (byteLength (header ++ more))) "" :=
  TokenStream.endOfInput_eq (by rw [tokens_header_append]; simp [opening])

theorem endOfInput_behind (cs ds : List Char) :
    (bodyState (cs ++ ds)).endOfInput = (bodyState ds).endOfInput.shift (byteLength cs) := by
  rw [endOfInput_header, endOfInput_header]
  simp only [byteLength_append, Token.bare, Token.shift, Span.emptyAt, Span.shift, List.map_nil,
    Token.mk.injEq, Span.mk.injEq, true_and, and_true]
  omega

theorem firstStatement (more : List Char) :
    ((bodyState more).takeWhile .terminator).rest = statementTokens more := by
  let tokens := (TokenStream.tokensBehind more).map (Token.shift 9)
  let gap := (TokenStream.gapBefore more).map (Trivia.shift 9)
  have ahead : (bodyState more).rest =
      (newline gap :: tokens.takeWhile (·.kind.isTerminator)) ++ statementTokens more := by
    rw [List.cons_append, statementTokens, List.takeWhile_append_dropWhile]
    rfl
  have stops := statementTokens_begins more 0
  rw [show Token.shift 0 = id from funext Token.shift_zero, List.map_id] at stops
  rw [State.takeWhile_eq Look.terminators?_terminator ahead]
  · intro t mem
    refine Token.endsLine_of_role (TokenKind.role_eq_terminator.mpr ?_)
    rcases List.mem_cons.mp mem with rfl | mem
    · rfl
    · exact List.mem_takeWhile_imp (p := fun t : Token => t.kind.isTerminator) mem
  · exact fun t head => Bool.eq_false_iff.mpr fun ends => stops t head (Token.role_of_endsLine ends)

theorem statements_behind {cs ds : List Char} {t : State} {n levels : Nat}
    (rounds : Rule.Rounds .block (statement levels) (bodyState (cs ++ ds)) t)
    (rest : t.rest = (statementTokens ds).map (Token.shift (byteLength cs)))
    (enough : (statementTokens ds).length < n)
    (run : statements levels (bodyState (cs ++ ds)) =
      Rule.runItems (.punct .rightBrace) .block (statement levels) n t) :
    ∃ before beforeAlone new : List Child, beforeAlone.filterMap Child.node? = [] ∧
      (statements levels (bodyState ds)).builder =
        ⟨(blockFrame.extend beforeAlone).extend new, [functionFrame, rootFrame]⟩ ∧
      (statements levels (bodyState (cs ++ ds))).builder =
        ⟨(blockFrame.extend before).extend (new.map (Child.shift (byteLength cs))),
          [functionFrame, rootFrame]⟩ ∧
      (statements levels (bodyState (cs ++ ds))).rest =
        (statements levels (bodyState ds)).rest.map (Token.shift (byteLength cs)) := by
  have keeps := Rule.run_keeps (enterCategory_keeps levels) Grammar.statement
  have reaches := Rule.run_reaches (enterCategory_reaches levels) Grammar.statement
  have first := firstStatement ds
  have nodes := State.nodes_takeWhile .terminator (bodyState ds)
  have steps := State.takeWhile_steps .terminator (bodyState ds)
  have alone : statements levels (bodyState ds) =
      Rule.runItems (.punct .rightBrace) .block (statement levels) n
        ((bodyState ds).takeWhile .terminator) := by
    rw [statements, ← Rule.runItems_takeWhile]
    refine Rule.runItems_enough reaches ?_ (first ▸ enough)
    exact Nat.lt_succ_of_le steps.advances.rest_length_le
  obtain ⟨before, grown⟩ := Rule.Rounds.extends Grammar.statement (by decide) levels .block rfl rounds
  obtain ⟨beforeAlone, grownAlone⟩ := Rule.Rounds.extends Grammar.statement (by decide) levels .block rfl
    (.single (.terminators (bodyState ds)))
  rw [run, alone]
  generalize (bodyState ds).takeWhile .terminator = v at *
  have same : v.depth = t.depth := by rw [State.depth, State.depth, grown, grownAlone]; rfl
  -- From here on both runs have the same tokens ahead, around different nodes.
  have beside : State.Beside (byteLength cs) v t v t := by
    refine .start (by rw [rest, first]) ?_ (by rw [grownAlone]; rfl) (by rw [grown]; rfl)
    rw [(rounds.steps reaches).advances.1, steps.advances.1, endOfInput_behind]
  have ends := Rule.runItems_beside same (.punct .rightBrace) .block (fun s' t' beside' below => by
      rw [← below]
      exact ⟨keeps s', Rule.run_beside same (enterCategory_keeps levels)
        (enterCategory_beside same levels) Grammar.statement beside' fun h => absurd h (by decide)⟩)
    n beside rfl
  have below := (Rule.runItems_rounds (.punct .rightBrace) .block (statement levels) n v).below keeps
  obtain ⟨new, built, built'⟩ := ends.builder.grown (State.depth_of_below below)
  refine ⟨before, beforeAlone, new, ?_, built.trans (by rw [grownAlone]; rfl),
    built'.trans (by rw [grown]; rfl), ends.rest⟩
  rw [State.nodes, grownAlone, OpenNode.nodes_extend] at nodes
  exact List.append_right_eq_self.mp nodes

theorem blockFrame_filled (before new : List Child) :
    ((blockFrame.extend before).extend new).children.isEmpty = false := by
  have brace : blockFrame.children = #[.token leftBrace] := rfl
  simp [OpenNode.extend, brace]

theorem mem_errors_of_close {more : List Char} {e : SyntaxError} {t : State}
    (failed : close inner (statements inner (bodyState more)) = .failed e t) :
    .syntactic e ∈ (parseStream .program (TokenStream.ofText (header ++ more))).errors.toList := by
  obtain ⟨n, -, run⟩ := parseStream_header more
  have recorded : .syntactic e ∈ (afterFunction more).errors.toList := by
    rw [afterFunction, failed]
    exact State.mem_errors_recover ..
  have steps : State.Steps (afterFunction more)
      (State.finish (.ok ((afterFunction more).declarations n))) :=
    State.finish_steps (show (Outcome.ok _).Reaches _ from
      State.declarations_steps n (afterFunction more))
  rw [run]
  exact steps.errors.subset recorded

theorem nodes_extend_root (f : Node) (new : List Child) :
    ((rootFrame.add (.node f)).extend new).nodes = f :: new.filterMap Child.node? := by
  rw [OpenNode.nodes_extend, OpenNode.nodes_add_node]
  rfl

theorem nodes_behind {cs ds : List Char} {f g : Node}
    (rest : (afterFunction (cs ++ ds)).rest =
      (afterFunction ds).rest.map (Token.shift (byteLength cs)))
    (alone : (afterFunction ds).builder = ⟨rootFrame.add (.node f), []⟩)
    (whole : (afterFunction (cs ++ ds)).builder = ⟨rootFrame.add (.node g), []⟩) :
    ∃ others : List Node,
      (parseStream .program (TokenStream.ofText (header ++ ds))).nodes = f :: others ∧
      (parseStream .program (TokenStream.ofText (header ++ (cs ++ ds)))).nodes =
        g :: others.map (Node.shift (byteLength cs)) := by
  obtain ⟨m, enough, runAlone⟩ := parseStream_header ds
  obtain ⟨m', enough', runWhole⟩ := parseStream_header (cs ++ ds)
  have same : (afterFunction ds).depth = (afterFunction (cs ++ ds)).depth := by
    rw [State.depth, State.depth, alone, whole]
    rfl
  have root : (afterFunction ds).depth = 1 := by
    rw [State.depth, alone]
    rfl
  have beside : State.Beside (byteLength cs) (afterFunction ds) (afterFunction (cs ++ ds))
      (afterFunction ds) (afterFunction (cs ++ ds)) := by
    refine .start rest ?_ (by rw [alone]; rfl) (by rw [whole]; rfl)
    rw [(afterFunction_steps _).advances.1, (afterFunction_steps _).advances.1, endOfInput_behind]
  -- The rounds of either run suffice for both.
  have after := State.finish_beside same root (.ok (beside.declarations same (m + m')))
  rw [← State.declarations_enough enough (Nat.lt_add_right m' enough),
    ← State.declarations_enough enough' (Nat.lt_add_left m enough'), ← runAlone, ← runWhole] at after
  have ends : (parseStream .program (TokenStream.ofText (header ++ ds))).builder.below = [] := by
    rw [runAlone]
    exact (State.finish_ends _).2
  obtain ⟨behind, grown, grown'⟩ := after.builder.grown
    ((congrArg (·.length + 1) ends).trans root.symm)
  rw [alone] at grown
  rw [whole] at grown'
  refine ⟨behind.filterMap Child.node?, ?_, ?_⟩
  · rw [State.nodes, grown, nodes_extend_root]
  · rw [State.nodes, grown', nodes_extend_root, filterMap_node?_shift]

theorem parse_behind {cs ds : List Char} {t : State} {n : Nat}
    (rounds : Rule.Rounds .block (statement inner) (bodyState (cs ++ ds)) t)
    (rest : t.rest = (statementTokens ds).map (Token.shift (byteLength cs)))
    (enough : (statementTokens ds).length < n)
    (run : statements inner (bodyState (cs ++ ds)) =
      Rule.runItems (.punct .rightBrace) .block (statement inner) n t)
    (clean : ∀ e ∈ (parseStream .program (TokenStream.ofText (header ++ ds))).errors.toList,
      e.kind ≠ .syntactic)
    (single : (parseStream .program (TokenStream.ofText (header ++ ds))).nodes.length = 1) :
    ∃ f block alone bodyAlone before,
      (parseStream .program (TokenStream.ofText (header ++ (cs ++ ds)))).nodes = [f] ∧
      f.kind = .fnDecl ∧ f.firstNodeOf? .body = some block ∧
      (parseStream .program (TokenStream.ofText (header ++ ds))).nodes = [alone] ∧
      alone.firstNodeOf? .body = some bodyAlone ∧
      block.nodeChildren = before ++ bodyAlone.nodeChildren.map (Node.shift (byteLength cs)) := by
  obtain ⟨before, beforeAlone, new, noNode, built, built', rest⟩ :=
    statements_behind rounds rest enough run
  have endOfInput : (statements inner (bodyState (cs ++ ds))).endOfInput =
      (statements inner (bodyState ds)).endOfInput.shift (byteLength cs) := by
    rw [(statements_steps inner _).advances.1, (statements_steps inner _).advances.1,
      endOfInput_behind]
  have stops := Rule.runItems_stops (.punct .rightBrace) .block
    (Rule.run_reaches (enterCategory_reaches inner) Grammar.statement)
    (Nat.lt_succ_self (bodyState ds).rest.length)
  rcases close_beside inner rest endOfInput built built' rfl rfl
      (blockFrame_filled _ _) (blockFrame_filled _ _) stops with
    ⟨e, u, failed, kind⟩ | ⟨closing, ending, noNode', builtAlone, builtWhole, restWhole⟩
  · exact absurd kind (clean _ (mem_errors_of_close failed))
  · rw [← afterFunction] at builtAlone builtWhole restWhole
    rw [← afterFunction] at restWhole
    obtain ⟨others, alone, whole⟩ := nodes_behind restWhole builtAlone builtWhole
    -- Alone the function is all there is, so nothing stands behind it in the whole either.
    rw [alone, List.length_cons] at single
    obtain rfl := List.length_eq_zero_iff.mp (Nat.succ.inj single)
    refine ⟨_, _, _, _, before.filterMap Child.node?, whole, whole_kind _ _, whole_body _ _, alone,
      whole_body _ _, ?_⟩
    have brace : blockFrame.nodes = [] := rfl
    simp only [OpenNode.nodeChildren_toNode, OpenNode.nodes_extend, filterMap_node?_shift, noNode,
      noNode', brace]
    simp

end Function

def programRoot (source : String) : Node := (parse .program defaultMaxErrors source).root

theorem programRoot_nodeChildren (source : String) :
    (programRoot source).nodeChildren =
      (parseStream .program (TokenStream.ofText source.toList)).nodes := by
  rw [programRoot, Node.nodeChildren, root_children, List.filterMap_append]
  exact List.append_nil _

/-- Alone the function with the body has no syntax error, and nothing stands beside it. -/
structure CleanBody (b : String) : Prop where
  errors : ∀ limit, ∀ e ∈ (parse .program limit (inFunction b)).errors, e.kind ≠ .syntactic
  single : (programRoot (inFunction b)).nodeChildren.length = 1

/-- Behind the line, the statements of the body are what they are without it. -/
def KeepsSiblings (line body : String) : Prop :=
  ∃ f block alone bodyAlone before,
    (programRoot (inFunction (line ++ "\n" ++ body))).nodeChildren = [f] ∧ f.kind = .fnDecl ∧
      f.firstNodeOf? .body = some block ∧
      (programRoot (inFunction body)).nodeChildren = [alone] ∧
      alone.firstNodeOf? .body = some bodyAlone ∧
      block.nodeChildren =
        before ++ bodyAlone.nodeChildren.map (Node.shift (line ++ "\n").utf8ByteSize)

theorem toList_inFunction (body : String) :
    (inFunction body).toList = Function.header ++ (body.toList ++ ['\x7d', '\n']) := by
  rw [inFunction, String.toList_append, String.toList_append, List.append_assoc]
  rfl

theorem cleanBody_of_sortedErrors {b : String} (none : sortedErrors (inFunction b).toList = [])
    (single : (programRoot (inFunction b)).nodeChildren.length = 1) : CleanBody b where
  errors limit e mem := by
    rw [parse_errors, none, List.take_nil] at mem
    exact absurd mem List.not_mem_nil
  single := single

theorem cleanBody_empty : CleanBody "" :=
  cleanBody_of_sortedErrors (by decide +kernel) (by decide +kernel)

theorem CleanBody.stream {b : String} (clean : CleanBody b) :
    (∀ e ∈ (parseStream .program (TokenStream.ofText
      (Function.header ++ (b.toList ++ ['\x7d', '\n'])))).errors.toList, e.kind ≠ .syntactic) ∧
      (parseStream .program (TokenStream.ofText
        (Function.header ++ (b.toList ++ ['\x7d', '\n'])))).nodes.length = 1 := by
  have single := clean.single
  rw [programRoot_nodeChildren, toList_inFunction] at single
  refine ⟨fun e mem => clean.errors (sortedErrors (inFunction b).toList).length e ?_, single⟩
  rw [parse_errors, List.take_length, sortedErrors, ParseError.mem_sortByStart, toList_inFunction]
  exact List.mem_append_right _ mem

/-- A line of balanced brackets leaves every body behind it alone exactly when the function with
that line alone is one function. -/
theorem keepsSiblings_iff (line : String) (ends : EndsLine (line ++ "\n").toList)
    (balanced : Balanced (TokenStream.ofText line.toList).tokens) :
    (∀ body, CleanBody body → KeepsSiblings line body) ↔
      ∃ f, (programRoot (inFunction (line ++ "\n"))).nodeChildren = [f] ∧ f.kind = .fnDecl := by
  rw [String.toList_append] at ends
  constructor
  · intro keeps
    obtain ⟨f, -, -, -, -, single, kind, -⟩ := keeps "" cleanBody_empty
    rw [String.append_empty] at single
    exact ⟨f, single, kind⟩
  · rintro ⟨f, single, -⟩ body clean
    obtain ⟨fork, left, right, within⟩ :=
      Function.exists_fork ends balanced ['\x7d', '\n'] (body.toList ++ ['\x7d', '\n'])
    rcases Function.statements_joint within Function.inner with
      ⟨due, inside, stops⟩ | ⟨_, t, _, n, past, -, enough, -, rounds, -, run⟩
    · have more : fork.left ≠ [] := by
        rw [left, Ne, List.map_eq_nil_iff]
        decide +kernel
      have two := Function.two_nodes inside stops more
      rw [programRoot_nodeChildren, toList_inFunction, String.toList_append] at single
      exact absurd two (Nat.not_lt_of_le (Nat.le_of_eq (congrArg List.length single)))
    · rw [right, List.length_map] at enough
      obtain ⟨f, block, alone, bodyAlone, before, whole, kind, isBody, single, isBody', children⟩ :=
        Function.parse_behind rounds (past.rest_right.trans right) enough run clean.stream.1
          clean.stream.2
      refine ⟨f, block, alone, bodyAlone, before, ?_, kind, isBody, ?_, isBody', ?_⟩
      · rw [programRoot_nodeChildren, toList_inFunction, String.toList_append, String.toList_append,
          List.append_assoc (line.toList ++ _)]
        exact whole
      · rw [programRoot_nodeChildren, toList_inFunction]
        exact single
      · rw [utf8ByteSize_eq_byteLength, String.toList_append]
        exact children

/-- After a mistake outside of brackets, recovery resumes at the end of the line. -/
theorem keepsSiblings_behind_mistake :
    EndsLine ("x := 1 2" ++ "\n").toList ∧
      Balanced (TokenStream.ofText "x := 1 2".toList).tokens ∧
      ∀ body, CleanBody body → KeepsSiblings "x := 1 2" body := by
  have ends : EndsLine ("x := 1 2" ++ "\n").toList := by decide +kernel
  have balanced : Balanced (TokenStream.ofText "x := 1 2".toList).tokens := by decide +kernel
  have kinds : (programRoot (inFunction ("x := 1 2" ++ "\n"))).nodeChildren.map (·.kind) =
      [.fnDecl] := by decide +kernel
  obtain ⟨f, single, kind⟩ := List.map_eq_singleton_iff.mp kinds
  exact ⟨ends, balanced, (keepsSiblings_iff "x := 1 2" ends balanced).mpr ⟨f, single, kind⟩⟩

/-- After a mistake inside of braces, recovery stops at the brace that closes them, which then
closes the function; the statement behind it is left to the program. -/
theorem brace_closes_function :
    EndsLine ("x := \x7b1 2\x7d" ++ "\n").toList ∧
      Balanced (TokenStream.ofText "x := \x7b1 2\x7d".toList).tokens ∧
      CleanBody "y := 3\n" ∧ ¬KeepsSiblings "x := \x7b1 2\x7d" "y := 3\n" := by
  refine ⟨by decide +kernel, by decide +kernel,
    cleanBody_of_sortedErrors (by decide +kernel) (by decide +kernel), ?_⟩
  rintro ⟨f, -, -, -, -, single, -⟩
  have kinds : (programRoot (inFunction
      ("x := \x7b1 2\x7d" ++ "\n" ++ "y := 3\n"))).nodeChildren.map (·.kind) =
        [.fnDecl, .shortVarDecl, .error] := by decide +kernel
  rw [single] at kinds
  exact absurd kinds (by simp)

end UmkaSyntax
