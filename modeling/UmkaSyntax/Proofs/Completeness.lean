import UmkaSyntax.Proofs.Parsing.Acceptance
import UmkaSyntax.Proofs.Soundness
import UmkaSyntax.Proofs.Tree.Injectivity

/-!
Every derivation is found. Where the tokens of a source have a derivation that is careful about
words, terminators and depth, the parse is clean and its tree is that derivation.
-/

namespace UmkaSyntax
open UmkaSyntax.Part Outcome

namespace State

variable {s : State} {parts gap : List Part} {outcome : Outcome}

theorem finish_adds (host : NodeKind) (root : s.depth = 1) (takes : outcome.Takes s parts)
    (behind : ∀ t, outcome = .ok t → s.Grows t parts → t.Faces host .terminators gap []) :
    s.Adds (finish outcome) (parts ++ gap) := by
  obtain ⟨t, rfl, added⟩ := takes
  have closed : t.Grows t.closeToRoot [] := by
    have grows := t.closedTo_grows
    rwa [added.depth_eq, root] at grows
  have faces : t.closeToRoot.Faces host .terminators gap [] :=
    (behind t rfl added.toGrows).of_same rfl closed.depth_eq
  have ended := takeWhile_adds Rule.holds_terminator (by decide) closed.pending faces
  have none : (t.closeToRoot.takeWhile .terminator).rest = [] := ended.rest_eq faces.rest
  have finished : finish (.ok t) = t.closeToRoot.takeWhile .terminator := by
    simp only [finish, none, List.isEmpty_nil, if_true, List.length_nil]
    unfold discard
    simp [none]
  rw [finished]
  exact added.trans (closed.adds rfl |>.trans ended)

end State

theorem enterCategory_enters_any : Enters 0 (enterCategory nestingLimit) :=
  enterCategory_enters nestingLimit 0 (Nat.le_add_left _ _)

theorem fragment_adds {category : Category} {s : State} {parts : List Part}
    (root : s.depth = 1) (pending : s.builder.top.pending = none)
    (faces : s.Faces .fragment (.fragment category) parts []) :
    s.Adds (State.finish ((Rule.inOrder [.terminators, .nested category]).runWhole s)) parts := by
  have faces : s.Faces .fragment (.seq (.seq .terminators (category.form none)) .terminators)
      parts [] := by
    refine faces.mono ?_
    rintro ⟨before, _, rfl, hb, item, _, rfl, whole | ⟨never, -⟩, after, _, rfl, ha,
      ⟨never, -⟩ | none⟩
    · exact never.elim
    · obtain rfl := none
      rw [List.append_nil] at hb whole ⊢
      rw [firstKind_append] at hb
      exact ⟨before ++ item, after, (List.append_assoc _ _ _).symm,
        ⟨before, item, rfl, hb, whole⟩, ha⟩
    · exact never.elim
    · exact never.elim
  obtain ⟨own, gap, rfl, front, behind, ahead⟩ := faces.split
  refine State.finish_adds .fragment root ?_ fun t _ grown =>
    behind t (grown.rest_eq front.rest) grown.depth_eq
  change ((Outcome.ok (s.takeWhile .terminator)).andThen (enterCategory nestingLimit category)).Takes
    s own
  refine Takes.join front (fun left rest front =>
    ⟨_, rfl, State.takeWhile_adds Rule.holds_terminator (by decide) pending front⟩)
    fun t left right _ grown faces => ?_
  refine enterCategory_enters_any category .fragment t right _ (Nat.zero_le _) (by decide)
    (by decide) (grown.pending ▸ faces) (ahead _ ?_ ?_)
  · cases category <;> decide
  · cases category <;> decide

theorem parseStream_adds {entry : Entry} {stream : TokenStream} {parts : List Part}
    (faces : (State.initial entry.rootKind stream).Faces entry.rootKind entry.body parts []) :
    (State.initial entry.rootKind stream).Adds (parseStream entry stream) parts := by
  cases entry with
  | type => exact fragment_adds rfl rfl faces
  | expression => exact fragment_adds rfl rfl faces
  | program =>
      have realizes : Realizes .program true anywhere none Grammar.program .program _ :=
        Grammar.program_realizes
      have takes := realizes.takes enterCategory_enters_any (Nat.zero_le _) trivial rfl faces rfl
      have added : (State.initial .program stream).Adds _ (parts ++ []) :=
        State.finish_adds .program rfl takes fun t _ grown => ⟨grown.proper faces.proper,
          grown.rest_eq faces.rest, ⟨trivial, by simp [CarefulAll]⟩, by simp, by decide⟩
      rwa [List.append_nil] at added

/-- The parts are a derivation of the entry over the tokens: they form a sentence of the entry, and
those of each node inside a sentence of its production. Runs of terminators are taken as long as they
are. No statement begins like another declaration, no name is followed by the token that makes
another type or a call of it, and no type, expression or block has too many nodes around it. -/
structure Derives (entry : Entry) (tokens : List Token) (parts : List Part) : Prop where
  tokens_eq : tokensOf parts = tokens
  sentence : entry.form.Sentence False parts .endOfInput
  valid : Valid entry.rootKind 1 parts .endOfInput

theorem Clean.of_not_faulty {entry : Entry} {source : String}
    (sound : ¬(parseStream entry (TokenStream.ofText source.toList)).Faulty) : Clean entry source := by
  intro limit e mem
  have mem : e ∈ unlimitedErrors entry source := List.mem_of_mem_take mem
  rw [unlimitedErrors, ParseError.mem_sortByStart, List.mem_append] at mem
  cases e with
  | lexical e => simp [ParseError.kind]
  | syntactic e =>
      obtain mem | mem := mem
      · simp at mem
      · exact absurd ⟨e, mem⟩ sound

theorem Derives.adds {entry : Entry} {stream : TokenStream} {parts : List Part}
    (derives : Derives entry stream.toList parts)
    (proper : ∀ t ∈ stream.tokens, t.kind ≠ .endOfInput) :
    ∃ body, parts = body ++ [.token none stream.endOfInput] ∧
      (State.initial entry.rootKind stream).Adds (parseStream entry stream) body := by
  obtain ⟨tokens, sentence, valid⟩ := derives
  rw [Entry.form] at sentence
  obtain ⟨body, _, rfl, own, last⟩ := sentence
  obtain ⟨t, rfl, kind⟩ := Form.sentence_token.mp last
  rw [tokensOf_append] at tokens
  obtain ⟨taken, same⟩ := List.append_inj' tokens rfl
  obtain rfl : t = stream.endOfInput := List.singleton_inj.mp same
  have ends : firstKind [.token none stream.endOfInput] .endOfInput = .endOfInput := kind
  have valid := valid.of_append_left
  rw [ends] at own valid
  refine ⟨body, rfl, parseStream_adds ⟨proper, ?_, valid, own⟩⟩
  rw [taken, List.append_nil]
  rfl

theorem Derives.eq_of_toChild {entry : Entry} {tokens : List Token} {parts others : List Part}
    (derives : Derives entry tokens parts) (derives' : Derives entry tokens others)
    (same : (Part.node none entry.rootKind true parts).toChild =
      (Part.node none entry.rootKind true others).toChild) : parts = others := by
  have children : toChildren parts = toChildren others :=
    congrArg Node.children (Child.node.inj same)
  have length : parts.length = others.length := by simpa using congrArg List.length children
  have labels : parts.map Part.label = others.map Part.label :=
    fieldsOf_injective (by simpa using length) (congrArg Node.fields (Child.node.inj same))
  have shapes : ∀ {parts : List Part}, Derives entry tokens parts →
      LicensedAll (Shape False) 1 parts .endOfInput := fun derives =>
    derives.valid.strict.imp fun _ _ _ _ _ strict => strict.1
  exact ((shapes derives).eq_of_toChildren (shapes derives') derives.sentence.fitting
    derives'.sentence.fitting labels children
    (congrArg (· ++ []) (derives.tokens_eq.trans derives'.tokens_eq.symm))).1

section

variable {host kind : NodeKind} {depth : Nat} {label : Option FieldName} {t : Token}
  {part : Part} {inner parts : List Part} {next : TokenKind}

theorem careful_leaf (leaf : part = .token label t ∨ part = .keyword label t) :
    Careful host depth part next := by
  obtain rfl | rfl := leaf
  all_goals
    refine ⟨by simp, by simp [plainName?], by simp [plainName?], fun _ _ category symbol mem fits => ?_⟩
    revert fits
    revert symbol
    cases category <;> simp [Category.symbols, Symbol.Fits]

theorem careful_node (other : kind ≠ .qualifiedName)
    (opening : kind ∈ [NodeKind.callStmt, .declAssignment, .shortVarDecl] →
      ∀ t ∈ (tokensOf inner).head?, ∀ k ∈ Keyword.declarations, Keyword.ofSpelling? t.text ≠ some k)
    (shallow : depth < nestingLimit) : Careful host depth (.node label kind true inner) next := by
  have unnamed : (Part.node label kind true inner).plainName? = none := by
    cases kind with
    | qualifiedName => exact absurd rfl other
    | _ => rfl
  refine ⟨?_, by simp [unnamed], by simp [unnamed], fun _ _ _ _ _ _ => shallow⟩
  rintro _ _ _ _ ⟨⟩
  exact opening

theorem careful_name {field : Option FieldName}
    (typeName : host ≠ .primary → ∀ k ∈ Keyword.ofSpelling? t.text, ∀ p ∈ k.opener?, next ≠ .punct p)
    (builtin : host = .primary → BuiltinFamily.ofName? t.text ≠ none → next ≠ .punct .leftParen)
    (shallow : depth < nestingLimit) :
    Careful host depth (.node label .qualifiedName true [.token field t]) next := by
  refine ⟨?_, ?_, ?_, fun _ _ _ _ _ _ => shallow⟩
  · rintro _ _ _ _ ⟨⟩ mem
    simp at mem
  · rintro primary _ ⟨⟩
    exact typeName primary
  · rintro primary _ ⟨⟩
    exact builtin primary

namespace Valid

theorem nil : Valid host depth [] next := ⟨trivial, by simp [CarefulAll]⟩

theorem cons (licensed : Licensed Strict depth part (firstKind parts next))
    (careful : Careful host depth part (firstKind parts next)) (more : Valid host depth parts next) :
    Valid host depth (part :: parts) next := by
  refine ⟨⟨licensed, more.strict⟩, fun before other after eq => ?_⟩
  cases before with
  | nil =>
      cases eq
      exact careful
  | cons _ before =>
      obtain ⟨rfl, rfl⟩ := List.cons.inj eq
      exact more.careful before other after rfl

theorem token (more : Valid host depth parts next) :
    Valid host depth (.token label t :: parts) next :=
  .cons trivial (careful_leaf (.inl rfl)) more

theorem keyword (more : Valid host depth parts next) :
    Valid host depth (.keyword label t :: parts) next :=
  .cons trivial (careful_leaf (.inr rfl)) more

theorem node (careful : Careful host depth (.node label kind true inner) (firstKind parts next))
    (sentence : (production kind).Sentence False inner (firstKind parts next))
    (valid : Valid kind (depth + 1) inner (firstKind parts next))
    (more : Valid host depth parts next) : Valid host depth (.node label kind true inner :: parts) next :=
  .cons ⟨⟨⟨sentence.ne_nil (production_first kind).1, .inl ⟨rfl, sentence⟩⟩, valid.careful⟩, valid.strict⟩
    careful more

theorem shallow (other : kind ∉ [NodeKind.callStmt, .declAssignment, .shortVarDecl, .qualifiedName])
    (below : depth < nestingLimit)
    (sentence : (production kind).Sentence False inner (firstKind parts next))
    (valid : Valid kind (depth + 1) inner (firstKind parts next))
    (more : Valid host depth parts next) :
    Valid host depth (.node label kind true inner :: parts) next := by
  refine .node (careful_node ?_ ?_ below) sentence valid more
  · rintro rfl
    simp at other
  · intro statement
    simp_all

end Valid

theorem sentence_node {symbols : List Symbol} (mem : .node kind ∈ symbols) :
    (Form.one label symbols).Sentence False [.node label kind true inner] next :=
  ⟨_, rfl, rfl, _, mem, rfl, rfl⟩

theorem sentence_plainName (name : t.kind = .name) :
    (production .qualifiedName).Sentence False [.token (some .name) t] next :=
  .inr (Form.sentence_token.mpr ⟨t, rfl, name⟩)

def nameValue (label : Option FieldName) (t : Token) : Part :=
  .node label .primary true [.node none .qualifiedName true [.token (some .name) t]]

def nameAlone (label : Option FieldName) (t : Token) : Part :=
  .node label .nameList true [.token none t]

theorem valid_nameValue (name : t.kind = .name) (shallow : depth + 1 < nestingLimit)
    (builtin : BuiltinFamily.ofName? t.text ≠ none → firstKind parts next ≠ .punct .leftParen)
    (more : Valid host depth parts next) : Valid host depth (nameValue label t :: parts) next := by
  have inside : Valid .primary (depth + 1) [.node none .qualifiedName true [.token (some .name) t]]
      (firstKind parts next) :=
    .node (careful_name (fun other => absurd rfl other) (fun _ => builtin) shallow)
      (sentence_plainName name) (.token .nil) .nil
  exact .shallow (by decide) (by omega) (sentence_node (by decide)) inside more

theorem valid_nameAlone (name : t.kind = .name) (shallow : depth < nestingLimit)
    (more : Valid host depth parts next) : Valid host depth (nameAlone label t :: parts) next := by
  have item : (Form.inOrder [.name none, .exportMark]).Sentence False [.token none t]
      (firstKind parts next) :=
    ⟨[_], [], rfl, Form.sentence_token.mpr ⟨t, rfl, name⟩, .inr rfl⟩
  have names : (production .nameList).Sentence False ([.token none t] ++ []) (firstKind parts next) :=
    .last item rfl
  exact .shallow (by decide) shallow names (.token .nil) more

end

/-- A function whose parameter, its type and a value have names that are special elsewhere. -/
def weakProgram : String := "fn f(map:weak)\x7by:=len;f(y)\x7d"

namespace WeakProgram

def nameAt (start : Nat) (text : String) : Token :=
  .bare .name ⟨start, start + text.utf8ByteSize⟩ text

def punctAt (start : Nat) (p : Punct) : Part :=
  .token none (.bare (.punct p) ⟨start, start + p.spelling.utf8ByteSize⟩ p.spelling)

def parameter : Part :=
  .node (some .params) .typedNameList true
    [nameAlone none (nameAt 5 "map"), punctAt 8 .colon,
      .node none .qualifiedName true [.token (some .name) (nameAt 9 "weak")]]

def signature : Part :=
  .node (some .signature) .signature true
    [.node none .parameterList true [punctAt 4 .leftParen, parameter, punctAt 13 .rightParen]]

def assignment : Part :=
  .node none .declAssignment true
    [nameAlone (some .identifiers) (nameAt 15 "y"), punctAt 16 .colonEqual,
      .node (some .values) .exprList true [nameValue none (nameAt 18 "len")],
      .token none (.bare .semicolon ⟨21, 22⟩ ";")]

def call : Part :=
  .node none .callStmt true
    [nameValue (some .designator) (nameAt 22 "f"),
      .node (some .arguments) .arguments true
        [punctAt 23 .leftParen, nameValue none (nameAt 24 "y"), punctAt 25 .rightParen]]

def body : Part :=
  .node (some .body) .block true [punctAt 14 .leftBrace, assignment, call, punctAt 26 .rightBrace]

def function : Part :=
  .node none .fnDecl true
    [.keyword none (nameAt 0 "fn"),
      .token (some .name) ⟨.name, ⟨3, 4⟩, "f", [⟨.whitespace, ⟨2, 3⟩, " "⟩], []⟩, signature, body]

def parts : List Part := [function, .token none (.bare .endOfInput ⟨27, 27⟩ "")]

theorem sentence_punctAt (start : Nat) (p : Punct) (next : TokenKind) :
    (Form.punct p).Sentence False [punctAt start p] next :=
  Form.sentence_token.mpr ⟨_, rfl, rfl⟩

theorem parameter_valid {parts : List Part} {next : TokenKind}
    (ahead : firstKind parts next = .punct .rightParen) (more : Valid .parameterList 4 parts next) :
    Valid .parameterList 4 (parameter :: parts) next := by
  refine .shallow (by decide) (by decide) ?_
    (valid_nameAlone rfl (by decide) <| .token <|
      .node (careful_name (fun _ => ?_) (by simp) (by decide)) (sentence_plainName rfl)
        (.token .nil) .nil) more
  · exact ⟨[_], _, rfl, sentence_node (by decide), [_], _, rfl,
      sentence_punctAt _ _ _, [], [_], rfl, .inr rfl, sentence_node (by decide)⟩
  · -- no caret comes after `weak`
    rw [firstKind_nil, ahead]
    decide +kernel

theorem signature_valid {parts : List Part} {next : TokenKind}
    (more : Valid .fnDecl 2 parts next) : Valid .fnDecl 2 (signature :: parts) next := by
  have listed : (production .parameterList).Sentence False
      [punctAt 4 .leftParen, parameter, punctAt 13 .rightParen] (firstKind parts next) := by
    have name : TokenKind.name ∉ [TokenKind.newline] := by decide
    have closer : TokenKind.punct .rightParen ∉ [TokenKind.newline] := by decide
    refine ⟨[_], _, rfl, sentence_punctAt _ _ _, [], _, rfl, ⟨by simp, name⟩, [parameter] ++ [],
      [punctAt 13 .rightParen], rfl, .last ?_ ⟨by simp, closer⟩, sentence_punctAt _ _ _⟩
    exact ⟨[_], [], rfl, sentence_node (by decide), .inr rfl⟩
  refine .shallow (by decide) (by decide) ?_ ?_ more
  · exact ⟨[_], [], rfl, sentence_node (by decide), .inr rfl⟩
  · exact .shallow (by decide) (by decide) listed
      (.token (parameter_valid rfl (.token .nil))) .nil

theorem assignment_valid {parts : List Part} {next : TokenKind}
    (ahead : (firstKind parts next).isTerminator = false) (more : Valid .block 3 parts next) :
    Valid .block 3 (assignment :: parts) next := by
  have values : (production .exprList).Sentence False ([nameValue none (nameAt 18 "len")] ++ [])
      .semicolon := .last (sentence_node (by decide)) rfl
  -- what comes after `len` makes no call of it
  have uncalled : TokenKind.semicolon ≠ .punct .leftParen := by decide
  refine .node (careful_node (by decide) (fun _ => ?_) (by decide)) ?_ ?_ more
  · -- no keyword opens the statement
    decide +kernel
  · exact ⟨[_], _, rfl, sentence_node (by decide), [_], _, rfl, sentence_punctAt _ _ _,
      [_], [_], rfl, sentence_node (by decide), by simp [Token.bare, TokenKind.isTerminator], ahead,
      by simp⟩
  · exact valid_nameAlone rfl (by decide) <| .token <|
      .shallow (by decide) (by decide) values
        (valid_nameValue rfl (by decide) (fun _ => uncalled) .nil) (.token .nil)

theorem call_valid {parts : List Part} {next : TokenKind} (more : Valid .block 3 parts next) :
    Valid .block 3 (call :: parts) next := by
  have given : (production .arguments).Sentence False
      [punctAt 23 .leftParen, nameValue none (nameAt 24 "y"), punctAt 25 .rightParen]
      (firstKind parts next) :=
    ⟨[_], _, rfl, sentence_punctAt _ _ _, [_] ++ [], [_], rfl,
      .last (sentence_node (by decide)) rfl, sentence_punctAt _ _ _⟩
  have unbuilt : BuiltinFamily.ofName? "f" = none ∧ BuiltinFamily.ofName? "y" = none := by
    decide +kernel
  refine .node (careful_node (by decide) (fun _ => ?_) (by decide)) ?_ ?_ more
  · -- nor this one
    decide +kernel
  · exact ⟨[_], [_], rfl, sentence_node (by decide), .inl (sentence_node (by decide))⟩
  · exact valid_nameValue rfl (by decide) (absurd unbuilt.1) <|
      .shallow (by decide) (by decide) given
        (.token (valid_nameValue rfl (by decide) (absurd unbuilt.2) (.token .nil))) .nil

theorem body_valid {parts : List Part} {next : TokenKind} (more : Valid .fnDecl 2 parts next) :
    Valid .fnDecl 2 (body :: parts) next := by
  have first : (Form.tried .statement).Sentence False [assignment] .name :=
    ⟨[_], [], rfl, .inl (.inl (sentence_node (by decide))), .inr rfl⟩
  have second : (Form.tried .statement).Sentence False [call] (.punct .rightBrace) :=
    ⟨[_], [], rfl, .inl (.inr ⟨[_], [], rfl, sentence_node (by decide), by simp, rfl, fun _ => rfl⟩),
      .inr rfl⟩
  have statements : (Form.items .statement).Sentence False ([assignment] ++ ([call] ++ []))
      (.punct .rightBrace) := .cons (.inr first) (.cons (.inr second) (.nil _))
  refine .shallow (by decide) (by decide) ?_
    (.token (assignment_valid rfl (call_valid (.token .nil)))) more
  exact ⟨[_], _, rfl, sentence_punctAt _ _ _, [_, _], [_], rfl, statements,
    sentence_punctAt _ _ _⟩

theorem function_sentence : (production .fnDecl).Sentence False
    [.keyword none (nameAt 0 "fn"),
      .token (some .name) ⟨.name, ⟨3, 4⟩, "f", [⟨.whitespace, ⟨2, 3⟩, " "⟩], []⟩, signature, body]
    .endOfInput := by
  refine Form.sentence_keyword_seq.mpr ⟨_, _, rfl, by decide +kernel, ?_⟩
  refine Form.sentence_token_seq.mpr ⟨_, _, rfl, rfl, [], _, rfl, .inr rfl, ?_⟩
  exact ⟨[_], [_], rfl, sentence_node (by decide), [_], [], rfl, .inl (sentence_node (by decide)),
    by simp, rfl, fun _ => rfl⟩

end WeakProgram

theorem weakProgram_derives :
    Derives .program (TokenStream.ofText weakProgram.toList).toList WeakProgram.parts := by
  refine ⟨by decide +kernel, ?_, ?_⟩
  · have item : (Form.tried .declaration).Sentence False [WeakProgram.function] .endOfInput :=
      ⟨[_], [], rfl, .inl (.inr (sentence_node (by decide))), .inr rfl⟩
    have items : (Form.items .declaration).Sentence False ([WeakProgram.function] ++ []) .endOfInput :=
      .cons (.inr item) (.nil _)
    exact ⟨[_], [_], rfl, ⟨[], [_], rfl, ⟨by simp, by decide⟩, [], [_], rfl, .inr rfl, items⟩,
      Form.sentence_token.mpr ⟨_, rfl, rfl⟩⟩
  · exact .shallow (by decide) (by decide) WeakProgram.function_sentence
      (.keyword (.token (WeakProgram.signature_valid (WeakProgram.body_valid .nil)))) (.token .nil)

/-- Where the tokens of a source have a derivation, the parse has no error that is not lexical, and
its tree is the derivation, with keywords tagged and literals split. So there is one derivation at
most. -/
theorem derivation_parsed (entry : Entry) (source : String) (parts : List Part)
    (derives : Derives entry (TokenStream.ofText source.toList).toList parts) :
    Clean entry source ∧
      (∀ maxErrors, .node (parse entry maxErrors source).root =
        (Part.node none entry.rootKind true parts).toChild) ∧
      ∀ other, Derives entry (TokenStream.ofText source.toList).toList other → other = parts := by
  have proper : ∀ t ∈ (TokenStream.ofText source.toList).tokens, t.kind ≠ .endOfInput :=
    fun _ mem => (TokenStream.token_origin mem).1
  obtain ⟨body, rfl, added⟩ := derives.adds proper
  refine ⟨.of_not_faulty fun faulty => ?_, fun maxErrors => root_of_grows added.toGrows,
    fun other derives' => ?_⟩
  · obtain ⟨e, mem⟩ := added.clean faulty
    simp [State.initial] at mem
  · obtain ⟨body', rfl, added'⟩ := derives'.adds proper
    exact derives'.eq_of_toChild derives
      ((root_of_grows added'.toGrows).symm.trans (root_of_grows added.toGrows))

theorem weakProgram_parsed :
    Derives .program (TokenStream.ofText weakProgram.toList).toList WeakProgram.parts ∧
      Clean .program weakProgram ∧
      (∀ maxErrors, .node (parse .program maxErrors weakProgram).root =
        (Part.node none .program true WeakProgram.parts).toChild) ∧
      ∀ other, Derives .program (TokenStream.ofText weakProgram.toList).toList other →
        other = WeakProgram.parts :=
  ⟨weakProgram_derives, derivation_parsed .program weakProgram _ weakProgram_derives⟩

end UmkaSyntax
