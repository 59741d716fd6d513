import UmkaSyntax.Proofs.Isolation
import UmkaSyntax.Proofs.Parsing.Yield

namespace UmkaSyntax

def inFunction (body : String) : String := "fn f() \x7b\n" ++ body ++ "\x7d\n"

namespace Function

def header : List Char := "fn f() \x7b\n".toList

def keyword : Token := ⟨.name, ⟨0, 2⟩, "fn", [], []⟩
def name : Token := ⟨.name, ⟨3, 4⟩, "f", [⟨.whitespace, ⟨2, 3⟩, " "⟩], []⟩
def leftParen : Token := ⟨.punct .leftParen, ⟨4, 5⟩, "(", [], []⟩
def rightParen : Token := ⟨.punct .rightParen, ⟨5, 6⟩, ")", [], []⟩
def leftBrace : Token := ⟨.punct .leftBrace, ⟨7, 8⟩, "\x7b", [⟨.whitespace, ⟨6, 7⟩, " "⟩], []⟩

def opening : List Token := [keyword, name, leftParen, rightParen, leftBrace]

def newline (gap : List Trivia) : Token := ⟨.newline, ⟨8, 9⟩, "\n", [], gap⟩

theorem header_endsLine : EndsLine header := by decide

theorem header_tokens : (TokenStream.ofText header).tokens = opening ++ [newline []] := by
  decide +kernel

theorem header_byteLength : byteLength header = 9 := rfl

def bodyTokens (more : List Char) : List Token :=
  newline ((TokenStream.gapBefore more).map (Trivia.shift 9)) ::
    (TokenStream.tokensBehind more).map (Token.shift 9)

theorem tokens_header_append (more : List Char) :
    (TokenStream.ofText (header ++ more)).tokens = opening ++ bodyTokens more := by
  obtain ⟨init, last, alone, -, -, whole⟩ := TokenStream.ofText_append header_endsLine more
  rw [header_tokens] at alone
  obtain ⟨rfl, rfl⟩ := List.append_inj' alone rfl |>.imp_right fun eq => (List.cons.inj eq).1
  rw [whole, header_byteLength]
  rfl

def rootFrame : OpenNode := OpenNode.empty .program 0

def functionFrame : OpenNode where
  kind := .fnDecl
  children := #[.token (State.asKeyword keyword), .token name,
    .node (Node.ofChildren .signature
      [.node (Node.ofChildren .parameterList [.token leftParen, .token rightParen] [] 4)] [] 4)]
  fields := [⟨.name, [1]⟩, ⟨.signature, [2]⟩]
  offset := 0
  pending := some .body

def blockFrame : OpenNode := (OpenNode.empty .block 7).add (.token leftBrace)

def bodyState (more : List Char) : State where
  rest := bodyTokens more
  endOfInput := (TokenStream.ofText (header ++ more)).endOfInput
  builder := ⟨blockFrame, [functionFrame, rootFrame]⟩
  errors := #[]
  log := #[.declaration 0]

section
variable (levels : Nat)

def statement : State → Outcome := Grammar.statement.run (enterCategory levels)

def statements (s : State) : State :=
  Rule.runItems (.punct .rightBrace) .block (statement levels) (s.rest.length + 1) s

def close (s : State) : Outcome :=
  ((((Rule.expect .rightBrace).run (enterCategory levels) s).andThen fun s =>
    .ok (s.onBuilder Builder.close)).andThen (Rule.terminator.run (enterCategory (levels + 1)))).andThen
      fun s => .ok (s.onBuilder Builder.close)

theorem initial_header (more : List Char) :
    State.initial .program (TokenStream.ofText (header ++ more)) =
      { rest := opening ++ bodyTokens more
        endOfInput := (TokenStream.ofText (header ++ more)).endOfInput
        builder := ⟨rootFrame, []⟩
        errors := #[]
        log := #[] } := by
  rw [State.initial, tokens_header_append]
  rfl

theorem run_declaration (more : List Char) :
    Grammar.declaration.run (enterCategory (levels + 1))
        (State.initial .program (TokenStream.ofText (header ++ more))) =
      close levels (statements levels (bodyState more)) := by
  rw [initial_header]
  rfl

theorem statements_steps (s : State) : State.Steps s (statements levels s) :=
  (Rule.runItems_rounds _ _ _ _ s).steps (Rule.run_reaches (enterCategory_reaches levels) _)

theorem close_reaches (s : State) : (close levels s).Reaches s :=
  (((Rule.run_reaches (enterCategory_reaches levels) (.expect .rightBrace) s).andThen
    Rule.closed_reaches).andThen
      (Rule.run_reaches (enterCategory_reaches (levels + 1)) Rule.terminator)).andThen
        Rule.closed_reaches

end

def inner : Nat := nestingLimit - 1

def afterFunction (more : List Char) : State :=
  (close inner (statements inner (bodyState more))).recovered 1 .topLevel

theorem afterFunction_steps (more : List Char) : State.Steps (bodyState more) (afterFunction more) :=
  (statements_steps inner _).trans ((close_reaches inner _).recovered 1 .topLevel)

theorem initial_rest (more : List Char) :
    (State.initial .program (TokenStream.ofText (header ++ more))).rest = opening ++ bodyTokens more :=
  congrArg State.rest (initial_header more)

theorem afterFunction_shorter (more : List Char) :
    (afterFunction more).rest.length <
      (State.initial .program (TokenStream.ofText (header ++ more))).rest.length := by
  have shorter := (afterFunction_steps more).advances.rest_length_le
  rw [initial_rest, List.length_append]
  simp only [bodyState] at shorter
  simp only [opening, List.length_cons, List.length_nil]
  omega

theorem itemRound_header (more : List Char) :
    Rule.itemRound .topLevel (Grammar.declaration.run (enterCategory nestingLimit))
      (State.initial .program (TokenStream.ofText (header ++ more))) = afterFunction more := by
  have depth : (State.initial .program (TokenStream.ofText (header ++ more))).depth = 1 := rfl
  have run : Grammar.declaration.run (enterCategory nestingLimit)
      (State.initial .program (TokenStream.ofText (header ++ more))) =
        close inner (statements inner (bodyState more)) := by
    rw [show nestingLimit = inner + 1 from rfl]
    exact run_declaration inner more
  simp only [Rule.itemRound, run, depth]
  rw [← afterFunction]
  exact if_neg (Nat.ne_of_lt (afterFunction_shorter more))

theorem parseStream_header (more : List Char) :
    ∃ n, (afterFunction more).rest.length < n ∧
      parseStream .program (TokenStream.ofText (header ++ more)) =
        State.finish (.ok ((afterFunction more).declarations n)) := by
  refine ⟨_, afterFunction_shorter more, ?_⟩
  have run := runWhole_program (State.initial .program (TokenStream.ofText (header ++ more)))
  have item := itemRound_header more
  have rest := initial_rest more
  change State.finish (Grammar.program.runWhole
    (State.initial .program (TokenStream.ofText (header ++ more)))) = _
  generalize State.initial .program (TokenStream.ofText (header ++ more)) = s at *
  have terminators : s.takeWhile .terminator = s := State.takeWhile_terminator_of_stops (by
    rw [rest]
    intro t head
    obtain rfl := Option.some.inj head
    decide)
  have front : s.afterImports = s := by
    simp only [State.afterImports, terminators]
    refine if_neg ?_
    rw [rest]
    exact (by decide : ¬(Look.keyword .imports).holds opening = true)
  have goes : (Look.atEnd.holds s.rest || s.rest.isEmpty) = false := by
    rw [rest]
    exact (by decide : (Look.atEnd.holds opening || opening.isEmpty) = false)
  rw [front, State.declarations, Rule.runItems_succ, terminators, item, goes,
    if_neg Bool.false_ne_true] at run
  rw [run, rest]
  rfl

def whole (block : OpenNode) (ending : List Child) : Node :=
  ((functionFrame.add (.node block.toNode)).extend ending).toNode

theorem whole_kind (block : OpenNode) (ending : List Child) : (whole block ending).kind = .fnDecl :=
  rfl

theorem whole_body (block : OpenNode) (ending : List Child) :
    (whole block ending).firstNodeOf? .body = some block.toNode := by
  have fields : (whole block ending).fields = [⟨.name, [1]⟩, ⟨.signature, [2]⟩, ⟨.body, [3]⟩] := rfl
  have third : (whole block ending).children[3]? = some (.node block.toNode) := by
    simp [whole, functionFrame, OpenNode.toNode, Node.ofChildren, OpenNode.extend]
  rw [Node.firstNodeOf?, Node.field, fields]
  simp [third, Child.node?]

theorem kind_of_terminator {enter : Category → State → Outcome} {s t : State} {e : SyntaxError}
    (failed : Rule.terminator.run enter s = .failed e t) : e.kind = .syntactic := by
  simp only [Rule.terminator, Rule.run] at failed
  split at failed
  · cases failed
  split at failed
  · cases failed
  · rename_i unclosed
    cases failed
    refine if_neg fun atEnd => unclosed ?_
    have holds : Look.atEnd.holds s.rest = true := by
      cases rest : s.rest with
      | nil => rfl
      | cons t more =>
          simp only [State.errorHere, State.current, rest] at atEnd
          simpa [Look.atEnd, Look.holds] using atEnd
    simp [Look.closing, Look.anyOf, Look.holds, holds]

theorem closeTo_function {block : OpenNode} (filled : block.children.isEmpty = false) :
    Builder.closeTo 1 ⟨block, [functionFrame, rootFrame]⟩ =
      ⟨rootFrame.add (.node (whole block [])), []⟩ := by
  simp only [Builder.closeTo, Builder.closeDown, filled]
  rfl

theorem close_of_brace {levels : Nat} {s : State} {brace : Token} {more : List Token}
    (ahead : s.rest = brace :: more) (kind : brace.kind = .punct .rightBrace) :
    close levels s =
      (Rule.terminator.run (enterCategory (levels + 1))
        { s with rest := more, builder := (s.builder.add (.token brace)).close }).andThen fun s =>
          .ok (s.onBuilder Builder.close) := by
  have holds : (Look.punct .rightBrace).holds s.rest = true := by
    rw [Look.punct, Look.holds, ahead]
    simp [kind]
  have expected : (Rule.expect .rightBrace).run (enterCategory levels) s =
      .ok { s with rest := more, builder := s.builder.add (.token brace) } := by
    rw [Rule.expect, Rule.run, if_pos holds, Rule.run, State.take, State.takeAs, ahead]
    rfl
  rw [close, expected]
  rfl

theorem close_beside {k : Nat} (levels : Nat) {s t : State} {x y : OpenNode}
    (rest : t.rest = s.rest.map (Token.shift k)) (endOfInput : t.endOfInput = s.endOfInput.shift k)
    (hs : s.builder = ⟨x, [functionFrame, rootFrame]⟩)
    (ht : t.builder = ⟨y, [functionFrame, rootFrame]⟩)
    (unnamed : x.pending = none) (unnamed' : y.pending = none)
    (filled : x.children.isEmpty = false) (filled' : y.children.isEmpty = false)
    (stops : (Look.punct .rightBrace).holds s.rest = true ∨ s.rest = []) :
    (∃ e u, close levels s = .failed e u ∧ e.kind = .syntactic) ∨
      ∃ closing ending : List Child, closing.filterMap Child.node? = [] ∧
        ((close levels s).recovered 1 .topLevel).builder =
          ⟨rootFrame.add (.node (whole (x.extend closing) ending)), []⟩ ∧
        ((close levels t).recovered 1 .topLevel).builder =
          ⟨rootFrame.add (.node (whole (y.extend (closing.map (Child.shift k)))
            (ending.map (Child.shift k)))), []⟩ ∧
        ((close levels t).recovered 1 .topLevel).rest =
          ((close levels s).recovered 1 .topLevel).rest.map (Token.shift k) := by
  cases ahead : s.rest with
  | nil =>
      rw [ahead, List.map_nil] at rest
      have failed : ∀ {s : State} {block : OpenNode}, s.rest = [] →
          s.builder = ⟨block, [functionFrame, rootFrame]⟩ → block.children.isEmpty = false →
          ((close levels s).recovered 1 .topLevel).builder =
              ⟨rootFrame.add (.node (whole block [])), []⟩ ∧
            ((close levels s).recovered 1 .topLevel).rest = [] := by
        rintro ⟨-, endOfInput, -, errors, log⟩ block rfl rfl filled
        exact ⟨closeTo_function filled, rfl⟩
      obtain ⟨builder, none⟩ := failed ahead hs filled
      obtain ⟨builder', none'⟩ := failed rest ht filled'
      refine .inr ⟨[], [], rfl, ?_, ?_, by rw [none, none']; rfl⟩
      · rw [builder, OpenNode.extend_nil unnamed]
      · rw [builder', List.map_nil, OpenNode.extend_nil unnamed']
  -- Behind the brace both runs hold the same nodes but for the block, to which nothing is added
  -- any more.
  | cons brace more =>
      rw [ahead, List.map_cons] at rest
      have kind : brace.kind = .punct .rightBrace := by
        simpa [ahead, Look.punct, Look.holds] using stops
      rw [close_of_brace ahead kind, close_of_brace rest kind]
      have closed : (s.builder.add (.token brace)).close =
          ⟨functionFrame.add (.node (x.extend [.token brace]).toNode), [rootFrame]⟩ := by
        rw [hs, ← OpenNode.add_eq_extend unnamed]
        rfl
      have closed' : (t.builder.add (.token (brace.shift k))).close =
          ⟨functionFrame.add (.node (y.extend [.token (brace.shift k)]).toNode), [rootFrame]⟩ := by
        rw [ht, ← OpenNode.add_eq_extend unnamed']
        rfl
      rw [closed, closed']
      generalize hu : ({ s with rest := more, builder := _ } : State) = u
      generalize hv : ({ t with rest := more.map (Token.shift k), builder := _ } : State) = v
      have beside : State.Beside k u v u v := by
        subst hu hv
        exact .start rfl endOfInput rfl rfl
      have same : u.depth = v.depth := by
        subst hu hv
        rfl
      have ends := Rule.run_beside same (enterCategory_keeps (levels + 1))
        (enterCategory_beside same (levels + 1)) Rule.terminator beside fun h => absurd h (by decide)
      have keeps := Rule.run_keeps (enterCategory_keeps (levels + 1)) Rule.terminator u
      cases run : Rule.terminator.run (enterCategory (levels + 1)) u with
      | failed e u' => exact .inl ⟨e, u', rfl, kind_of_terminator run⟩
      | ok u' =>
          rw [run] at ends keeps
          generalize Rule.terminator.run (enterCategory (levels + 1)) v = after at ends
          cases ends with
          | @ok _ v' ends =>
              obtain ⟨ending, built, built'⟩ := ends.builder.grown (State.depth_of_below keeps)
              refine .inr ⟨[.token brace], ending, rfl, ?_, ?_, ends.rest⟩
              · change u'.builder.close = _
                rw [built, ← hu]
                rfl
              · change v'.builder.close = _
                rw [built', ← hv]
                rfl

end Function

end UmkaSyntax
