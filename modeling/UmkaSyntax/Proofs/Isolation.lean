import UmkaSyntax.Proofs.Error.Order
import UmkaSyntax.Proofs.Lexing.Concatenation
import UmkaSyntax.Proofs.Parsing.Blame
import UmkaSyntax.Proofs.Parsing.Growth
import UmkaSyntax.Proofs.Parsing.Lockstep
import UmkaSyntax.Proofs.Parsing.Relocation

/-!
Segments of a program do not touch each other. A program whose first part ends with a line of its
own and closes its brackets is parsed part by part, whatever mistakes the parts hold.
-/

namespace UmkaSyntax

theorem Keyword.spelling_of_ofSpelling? {word : String} {k : Keyword}
    (spells : ofSpelling? word = some k) : k.spelling = word := by
  simpa using List.find?_some spells

namespace State

def afterImports (s : State) : State :=
  let s := s.takeWhile .terminator
  if (Look.keyword .imports).holds s.rest then
    (Grammar.imports.run (enterCategory nestingLimit) s).recovered s.depth .topLevel
  else s

def declarations (rounds : Nat) (s : State) : State :=
  Rule.runItems .atEnd .topLevel (Grammar.declaration.run (enterCategory nestingLimit)) rounds s

theorem afterImports_steps (s : State) : Steps s s.afterImports := by
  refine (takeWhile_steps .terminator s).trans ?_
  simp only [afterImports]
  split
  · exact (Rule.run_reaches (enterCategory_reaches _) Grammar.imports _).recovered _ _
  · exact .refl

end State

theorem runWhole_program (s : State) : Grammar.program.runWhole s =
    .ok (s.afterImports.declarations (s.afterImports.rest.length + 1)) := by
  have imports : (Rule.optional (.keyword .imports) (.recovering .topLevel Grammar.imports)).run
      (enterCategory nestingLimit) (s.takeWhile .terminator) = .ok s.afterImports := by
    rw [State.afterImports, Rule.optional, Rule.run]
    split <;> rfl
  change ((Rule.optional (.keyword .imports) (.recovering .topLevel Grammar.imports)).run
    (enterCategory nestingLimit) (s.takeWhile .terminator)).andThen _ = _
  rw [imports]
  rfl

namespace Fork
variable {fork : Fork} {s t : State}

theorem afterImports_joint (within : fork.Within [] s t)
    (left : (Look.keyword .imports).holds fork.left = false)
    (right : (Look.keyword .imports).holds fork.right = false) :
    fork.Joint [] s.afterImports t.afterImports := by
  obtain ⟨ahead, stays, flow⟩ := Grammar.imports_flow
  simp only [State.afterImports]
  rcases within.takeWhile Look.terminators?_terminator with ⟨within, -⟩ | ⟨-, past⟩
  · rw [within.holds_eq (show (Look.keyword .imports).staysInLine false = true from rfl)]
    split
    · rename_i imports
      have depth : (t.takeWhile .terminator).depth = (s.takeWhile .terminator).depth :=
        congrArg Builder.depth within.builder
      rw [depth]
      exact (endJoint_of_flow flow within (List.Sublist.refl []) (Look.foresight_holds imports)).recovered
        .topLevel (by simp) _
    · exact .inl ⟨[], within, List.Sublist.refl []⟩
  · have past := past rfl
    rw [past.rest_left, past.rest_right, if_neg (by simp [left]), if_neg (by simp [right])]
    exact .inr ⟨rfl, past⟩

/-- A balanced first part of a program is parsed in the same way whatever follows it. -/
theorem program_past (within : fork.Within [] s t)
    (left : (Look.keyword .imports).holds fork.left = false)
    (right : (Look.keyword .imports).holds fork.right = false)
    (tokens : ∀ u ∈ s.rest, u.kind ≠ .endOfInput) :
    ∃ s' t' n n', fork.Past s' t' ∧ fork.left.length < n ∧ fork.right.length < n' ∧
      Grammar.program.runWhole s = .ok (s'.declarations n) ∧
      Grammar.program.runWhole t = .ok (t'.declarations n') := by
  obtain ⟨ahead, stays, flow⟩ := Grammar.declaration_flow
  rw [runWhole_program, runWhole_program]
  rcases afterImports_joint within left right with ⟨due, within, sublist⟩ | ⟨-, past⟩
  · have reaches := Rule.run_reaches (enterCategory_reaches nestingLimit) Grammar.declaration
    rcases fork.runItems_joint .atEnd .topLevel rfl (by simp) reaches
        (fun due s t within sublist => endJoint_of_flow flow within sublist trivial) _ _ within
        sublist (Nat.lt_succ_self _) (Nat.lt_succ_self _) with
      ⟨due', s', t', within', -, stops, run, -⟩ |
        ⟨-, s', t', n, n', past, hn, hn', -, -, hs, ht⟩
    · -- The end of the input is not ahead while tokens are.
      have items := (Rule.runItems_rounds .atEnd .topLevel _
        (s.afterImports.rest.length + 1) s.afterImports).steps reaches
      rw [run] at items
      have steps : State.Steps s s' := s.afterImports_steps.trans items
      obtain ⟨-, taken, -, ahead, -⟩ := steps.advances
      have some := fork.rest_length_left within'
      cases rest : s'.rest with
      | nil => simp [rest] at some
      | cons u more =>
          have isEnd : u.kind = .endOfInput := by simpa [Look.atEnd, Look.holds, rest] using stops
          exact absurd isEnd (tokens u (by simp [ahead, rest]))
    · exact ⟨s', t', n, n', past, hn, hn', congrArg Outcome.ok hs, congrArg Outcome.ok ht⟩
  · refine ⟨_, _, _, _, past, ?_, ?_, rfl, rfl⟩
    · rw [past.rest_left]
      exact Nat.lt_succ_self _
    · rw [past.rest_right]
      exact Nat.lt_succ_self _

end Fork

theorem State.declarations_steps (rounds : Nat) (s : State) : Steps s (s.declarations rounds) :=
  (Rule.runItems_rounds _ _ _ rounds s).steps (Rule.run_reaches (enterCategory_reaches _) _)

theorem State.declarations_enough {rounds rounds' : Nat} {s : State}
    (enough : s.rest.length < rounds) (enough' : s.rest.length < rounds') :
    s.declarations rounds = s.declarations rounds' :=
  Rule.runItems_enough (Rule.run_reaches (enterCategory_reaches _) Grammar.declaration) enough enough'

theorem State.Beside.declarations {k : Nat} {left right s t : State}
    (beside : State.Beside k left right s t) (same : left.depth = right.depth) (rounds : Nat) :
    State.Beside k left right (s.declarations rounds) (t.declarations rounds) := by
  refine Rule.runItems_beside same _ _ (fun s' t' beside' below => ?_) rounds beside rfl
  rw [← below]
  exact ⟨Rule.run_keeps (enterCategory_keeps _) Grammar.declaration s',
    Rule.run_beside same (enterCategory_keeps _) (enterCategory_beside same _) Grammar.declaration
      beside' fun h => absurd h (by decide)⟩

theorem State.declarations_nil {rounds : Nat} {s : State} (rest : s.rest = []) :
    s.declarations rounds = s := by
  cases rounds with
  | zero => rfl
  | succ rounds =>
      have same := State.takeWhile_terminator_of_stops (s := s) (by simp [rest])
      rw [State.declarations, Rule.runItems_succ, same, rest]
      rfl

theorem State.finish_ok {s : State} (rest : s.rest = []) (below : s.builder.below = [])
    (unnamed : s.builder.top.pending = none) : State.finish (.ok s) = s := by
  have root : s.closeToRoot = s := by
    obtain ⟨rest, endOfInput, ⟨top, below'⟩, errors, log⟩ := s
    simp only at below unnamed
    subst below
    simp only [closeToRoot, onBuilder, Builder.closeTo, Builder.closeDown, ← unnamed]
  simp only [State.finish, root, State.takeWhile_terminator_of_stops (s := s) (by simp [rest]), rest]
  simp [discard, rest]

theorem root_children (entry : Entry) (limit : Nat) (source : String) :
    (parse entry limit source).root.children =
      (parseStream entry (TokenStream.ofText source.toList)).builder.top.children.toList ++
        [.token (TokenStream.ofText source.toList).endOfInput] := by
  have same := (parseStream_steps entry (TokenStream.ofText source.toList)).advances.1
  change (State.root _).children = _
  rw [State.root, OpenNode.toNode, Node.ofChildren.eq_def, OpenNode.children_add, same]
  simp [State.initial]

def sortedErrors (cs : List Char) : List ParseError :=
  ParseError.sortByStart ((TokenStream.ofText cs).errors.map .lexical ++
    (parseStream .program (TokenStream.ofText cs)).errors.toList)

theorem parse_errors (limit : Nat) (source : String) :
    (parse .program limit source).errors = (sortedErrors source.toList).take limit := rfl

/-- Two texts, the first of which ends with a line of its own and the second of which begins with
neither a terminator nor an import. -/
structure Segments (cs ds : List Char) : Prop where
  ends : EndsLine cs
  balanced : Balanced (TokenStream.ofText cs).tokens
  begins : ∃ t ∈ (TokenStream.ofText ds).tokens.head?,
    t.kind.isTerminator = false ∧ ¬(t.kind = .name ∧ t.text = "import")

namespace Segments
variable {cs ds : List Char} (segments : Segments cs ds)
include segments

theorem tokens_append : (TokenStream.ofText (cs ++ ds)).tokens =
    (TokenStream.ofText cs).tokens ++
      (TokenStream.ofText ds).tokens.map (Token.shift (byteLength cs)) := by
  obtain ⟨t, head, other, -⟩ := segments.begins
  have notNewline : t.kind ≠ .newline := by
    intro newline
    rw [newline] at other
    exact absurd other (by decide)
  obtain ⟨behind, gap⟩ := TokenStream.tokensBehind_eq head notNewline
  obtain ⟨init, newline, alone, -, bare, whole⟩ := TokenStream.ofText_append segments.ends ds
  rw [whole, alone, behind, gap, List.map_nil, List.append_assoc, ← bare]
  rfl

theorem endOfInput_append : (TokenStream.ofText (cs ++ ds)).endOfInput =
    (TokenStream.ofText ds).endOfInput.shift (byteLength cs) := by
  obtain ⟨t, head, -⟩ := segments.begins
  refine TokenStream.endOfInput_append segments.ends fun none => ?_
  simp [none] at head

theorem noTerminator : ∀ t ∈ (TokenStream.ofText ds).tokens.head?, t.kind.role ≠ .terminator := by
  obtain ⟨first, head, other, -⟩ := segments.begins
  intro t mem
  obtain rfl := Option.some.inj ((Option.mem_def.mp mem).symm.trans head)
  rw [Ne, TokenKind.role_eq_terminator]
  exact Bool.eq_false_iff.mp other

theorem noImport : (Look.keyword .imports).holds (TokenStream.ofText ds).tokens = false := by
  obtain ⟨first, head, -, other⟩ := segments.begins
  rw [Look.holds, Option.mem_def.mp head, Option.any_some]
  refine Bool.eq_false_iff.mpr fun holds => other ?_
  rw [Bool.and_eq_true, beq_iff_eq, beq_iff_eq] at holds
  exact ⟨holds.1, (Keyword.spelling_of_ofSpelling? holds.2).symm⟩

theorem exists_fork : ∃ fork : Fork,
    fork.left = [] ∧
    fork.right = (TokenStream.ofText ds).tokens.map (Token.shift (byteLength cs)) ∧
    fork.leftEnd = fork.rightEnd ∧
    fork.Within [] (State.initial .program (TokenStream.ofText cs))
      (State.initial .program (TokenStream.ofText (cs ++ ds))) := by
  obtain ⟨init, newline, alone, kind, -⟩ := TokenStream.ofText_append segments.ends ds
  have balanced : missingAfter [] init = some [] := by
    have whole := segments.balanced
    rw [Balanced, alone, missingAfter_append] at whole
    cases missing : missingAfter [] init with
    | none => simp [missing] at whole
    | some due =>
        rw [missing] at whole
        simpa [missingAfter, kind, TokenKind.role] using whole
  have terminator : ∀ u ∈ [newline], u.kind.role = .terminator := by
    intro u mem
    rw [List.mem_singleton.mp mem, kind]
    rfl
  let fork : Fork :=
    { leftEnd := [newline]
      left := []
      rightEnd := [newline]
      right := (TokenStream.ofText ds).tokens.map (Token.shift (byteLength cs))
      terminators_left := terminator
      terminators_right := terminator
      meet := ⟨newline, [], newline, [], rfl, rfl, rfl, rfl⟩
      stops_left := by simp
      stops_right := by
        intro u mem
        rw [List.head?_map] at mem
        obtain ⟨t, head, rfl⟩ := Option.map_eq_some_iff.mp mem
        exact segments.noTerminator t head }
  have tokens := segments.tokens_append
  refine ⟨fork, rfl, rfl, rfl, ⟨init, ?_, ?_, balanced⟩, ?_, fun _ => rfl⟩
  · simp [State.initial, alone, fork]
  · simp [State.initial, tokens, alone, fork]
  · have first : (TokenStream.ofText (cs ++ ds)).tokens.head? = (TokenStream.ofText cs).tokens.head? := by
      rw [tokens, alone]
      cases init <;> rfl
    have some : (TokenStream.ofText cs).tokens.head? ≠ none := by
      rw [alone]
      cases init <;> simp
    obtain ⟨u, eq⟩ := Option.ne_none_iff_exists'.mp some
    simp [State.initial, first, eq]

/-- The second part adds to the tree and to the errors of the first what it has alone. -/
theorem parseStream_append :
    (parseStream .program (TokenStream.ofText (cs ++ ds))).builder.top.children.toList =
        (parseStream .program (TokenStream.ofText cs)).builder.top.children.toList ++
          (parseStream .program (TokenStream.ofText ds)).builder.top.children.toList.map
            (Child.shift (byteLength cs)) ∧
      (parseStream .program (TokenStream.ofText (cs ++ ds))).errors.toList =
        (parseStream .program (TokenStream.ofText cs)).errors.toList ++
          (parseStream .program (TokenStream.ofText ds)).errors.toList.map
            (ParseError.shift (byteLength cs)) := by
  obtain ⟨fork, left, right, ends, within⟩ := segments.exists_fork
  have noImport := segments.noImport
  have noTerminator := segments.noTerminator
  obtain ⟨s, u, n, n', past, hn, hn', runFirst, runWhole⟩ := Fork.program_past within
    (by rw [left]; rfl) (by rw [right, Look.holds_shift]; exact noImport)
    fun u mem => (TokenStream.token_origin mem).1
  have ahead : s.rest = [] := past.rest_left.trans left
  obtain ⟨builder, errors⟩ := past.same ends
  -- The first part alone ends where the second begins.
  rw [State.declarations_nil ahead] at runFirst
  obtain ⟨new, grown⟩ := Rule.run_extends (by decide) rfl runFirst
  have first : parseStream .program (TokenStream.ofText cs) = s := by
    refine (congrArg State.finish runFirst).trans (State.finish_ok ahead ?_ ?_) <;> rw [grown] <;> rfl
  -- From there on the run over both parts does what the run over the second part does.
  let v := State.initial .program (TokenStream.ofText ds)
  have root := builder.trans grown
  have same : v.depth = u.depth := by rw [State.depth, State.depth, root]; rfl
  have steps := (Rule.runWhole_reaches Grammar.program
    (State.initial .program (TokenStream.ofText (cs ++ ds))))
  rw [runWhole] at steps
  have endOfInput : u.endOfInput = v.endOfInput.shift (byteLength cs) := by
    have later := (u.declarations_steps n').advances.1
    have earlier := (State.Steps.advances steps).1
    exact (later.symm.trans earlier).trans segments.endOfInput_append
  have beside : State.Beside (byteLength cs) v u v u :=
    .start (past.rest_right.trans right) endOfInput rfl (by rw [root]; rfl)
  have finished := State.finish_beside same rfl (.ok (beside.declarations same n'))
  have second : parseStream .program (TokenStream.ofText ds) =
      State.finish (.ok (v.declarations n')) := by
    have run := runWhole_program v
    have front : v.afterImports = v := by
      simp only [State.afterImports, State.takeWhile_terminator_of_stops (s := v) noTerminator]
      exact if_neg (by simp [v, State.initial, noImport])
    rw [front] at run
    refine congrArg State.finish (run.trans (congrArg Outcome.ok ?_))
    refine State.declarations_enough (Nat.lt_succ_self _) ?_
    rwa [right, List.length_map] at hn'
  have whole : parseStream .program (TokenStream.ofText (cs ++ ds)) =
      State.finish (.ok (u.declarations n')) := congrArg State.finish runWhole
  rw [first, second, whole]
  obtain ⟨more, hv, hu⟩ := finished.builder.grown
    (congrArg (·.length + 1) (State.finish_ends (.ok (v.declarations n'))).2)
  obtain ⟨newErrors, ev, eu⟩ := finished.errors
  rw [hv, hu, ev, eu, errors, builder]
  exact ⟨by simp [OpenNode.extend, v, State.initial, OpenNode.empty], by simp [v, State.initial]⟩

/-- No error of the first part is about its end: in the whole that place is not the end. -/
theorem starts_before {e : ParseError}
    (mem : e ∈ (parseStream .program (TokenStream.ofText cs)).errors.toList) :
    e.span.start < byteLength cs := by
  refine TokenStream.starts_before_end (parseStream_concerns mem) ?_
  rintro f rfl found
  have whole : (ParseError.syntactic f).Concerns (TokenStream.ofText (cs ++ ds)) :=
    parseStream_concerns (by rw [segments.parseStream_append.2]; exact List.mem_append_left _ mem)
  rcases List.mem_append.mp whole with inside | atEnd
  · exact absurd (found ▸ rfl) (TokenStream.token_origin inside).1
  · have place := congrArg (·.span.start) (found.symm.trans (List.mem_singleton.mp atEnd))
    simp only [TokenStream.ofText, Token.bare, Span.emptyAt, byteLength_append] at place
    obtain ⟨t, head, -⟩ := segments.begins
    have origin := TokenStream.token_origin (List.mem_of_mem_head? head)
    omega

theorem sortedErrors_append :
    sortedErrors (cs ++ ds) =
      sortedErrors cs ++ (sortedErrors ds).map (ParseError.shift (byteLength cs)) := by
  have lexical : ((TokenStream.ofText ds).errors.map (LexicalError.shift (byteLength cs))).map
      ParseError.lexical =
        ((TokenStream.ofText ds).errors.map .lexical).map (ParseError.shift (byteLength cs)) := by
    rw [List.map_map, List.map_map]
    rfl
  rw [sortedErrors, TokenStream.errors_append segments.ends, segments.parseStream_append.2,
    List.map_append, lexical]
  refine ParseError.sortByStart_append fun e mem => decide_eq_true ?_
  rcases List.mem_append.mp mem with mem | mem
  · obtain ⟨f, mem', rfl⟩ := List.mem_map.mp mem
    exact TokenStream.error_origin mem'
  · exact segments.starts_before mem

end Segments

/-- Whatever mistakes it holds, a first part that ends with a line of its own and closes its
brackets changes nothing in the part behind it: the tree is that of the first part, and then that of
the second, moved behind it, and so are the errors. -/
theorem parse_append (p q : String) (segments : Segments p.toList q.toList) :
    (∀ limit, ∃ children endOfInput,
      (parse .program limit p).root.children = children ++ [.token endOfInput] ∧
        endOfInput.kind = .endOfInput ∧
        (parse .program limit (p ++ q)).root.children =
          children ++ (parse .program limit q).root.children.map (Child.shift p.utf8ByteSize)) ∧
      ∃ bound, ∀ limit, bound ≤ limit →
        (parse .program limit (p ++ q)).errors =
          (parse .program limit p).errors ++
            (parse .program limit q).errors.map (ParseError.shift p.utf8ByteSize) := by
  rw [utf8ByteSize_eq_byteLength]
  constructor
  · intro limit
    refine ⟨(parseStream .program (TokenStream.ofText p.toList)).builder.top.children.toList, _,
      root_children .program limit p, rfl, ?_⟩
    rw [root_children, root_children, String.toList_append, segments.parseStream_append.1,
      segments.endOfInput_append]
    simp [Child.shift]
  · refine ⟨(sortedErrors (p.toList ++ q.toList)).length, fun limit enough => ?_⟩
    have sizes := enough
    rw [segments.sortedErrors_append, List.length_append, List.length_map] at sizes
    rw [parse_errors, parse_errors, parse_errors, String.toList_append,
      List.take_of_length_le enough, List.take_of_length_le (Nat.le_of_add_right_le sizes),
      List.take_of_length_le (Nat.le_trans (Nat.le_add_left _ _) sizes),
      segments.sortedErrors_append]

/-- A declaration with a mistake inside of its braces, and one behind it. -/
theorem parse_append_at_mistake :
    Segments "x := {1 2}\n".toList "y := 3\n".toList ∧
      (∀ limit, ∃ children endOfInput,
        (parse .program limit "x := {1 2}\n").root.children = children ++ [.token endOfInput] ∧
          endOfInput.kind = .endOfInput ∧
          (parse .program limit ("x := {1 2}\n" ++ "y := 3\n")).root.children =
            children ++ (parse .program limit "y := 3\n").root.children.map (Child.shift 11)) ∧
        ∃ bound, ∀ limit, bound ≤ limit →
          (parse .program limit ("x := {1 2}\n" ++ "y := 3\n")).errors =
            (parse .program limit "x := {1 2}\n").errors ++
              (parse .program limit "y := 3\n").errors.map (ParseError.shift 11) := by
  have segments : Segments "x := {1 2}\n".toList "y := 3\n".toList :=
    ⟨by decide +kernel, by decide +kernel, _, rfl, by decide +kernel, by decide +kernel⟩
  exact ⟨segments, parse_append "x := {1 2}\n" "y := 3\n" segments⟩

end UmkaSyntax
