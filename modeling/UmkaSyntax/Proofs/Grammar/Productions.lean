import UmkaSyntax.Proofs.Grammar.Realization

namespace UmkaSyntax.Grammar
open UmkaSyntax.Part

variable {host : NodeKind} {inside : Bool} {given : List Token → Prop} {label : Option FieldName}

theorem takePunct_realizes (p : Punct) :
    Realizes host inside (fun tokens => given tokens ∧ (Look.punct p).holds tokens = true) label .take
      (.one label [.token (.punct p)]) (among []) :=
  .takeKind (fun tokens holds => by simpa [Look.punct] using holds.2) (by simp)

theorem accept_realizes (p : Punct) :
    Realizes host inside given none (.accept p) (.optional (.punct p)) (among [.punct p]) := by
  refine (Realizes.optional (takePunct_realizes p) ⟨rfl, ?_, rfl⟩).avoiding ?_
  · simp [Form.first, Symbol.first, Look.punct, Look.ofKind]
  · simp [Look.punct, Look.ofKind, among]

theorem exportMark_realizes :
    Realizes host inside given none exportMark .exportMark (among [.punct .star]) :=
  (Realizes.optional (.label .exported Rule.take_atomic (takePunct_realizes .star))
    (by decide)).avoiding (by decide)

/-! ## Names and types -/

theorem name_handsOver (field : FieldName) : (Rule.seq .name (.label field)).HandsOver given
    (fun tokens => ∃ t, given (t :: tokens)) := by
  intro enter s t holds run
  simp only [Rule.run, Rule.name] at run
  by_cases isName : Look.name.holds s.rest = true
  · rw [if_pos isName] at run
    obtain ⟨u, more, rest⟩ := List.exists_cons_of_ne_nil
      (Look.ne_nil_of_needsToken (show Look.name.needsToken = true from rfl) isName)
    simp only [Outcome.andThen, State.take, State.takeAs, rest, Outcome.ok.injEq] at run
    subst run
    exact ⟨u, rest ▸ holds⟩
  · simp [isName, Outcome.andThen] at run

theorem qualifiedName_realizes :
    Realizes host inside given label qualifiedName (.node label .qualifiedName)
      (among [.punct .colonColon]) := by
  have peeked : ∀ enter s, (Rule.seq .name (.seq (.branch (.punct .colonColon)
      (.seq (.label .module) (.seq .take .name)) .done) (.label .name))).run enter s =
      (Rule.branch (.next (.punct .colonColon)) (.seq .name (.seq (.label .module) (.seq .take
        (.seq .name (.label .name))))) (.seq .name (.label .name))).run enter s := by
    intro enter s
    rw [Rule.run_seq_congr (Rule.run_distribute enter), Rule.run_name_branch]
    rfl
  have colons : ∀ tokens, (∃ t, given (t :: tokens) ∧
      (Look.next (.punct .colonColon)).holds (t :: tokens) = true) →
        kindAhead tokens = .punct .colonColon := by
    rintro tokens ⟨t, -, holds⟩
    simpa [Look.holds, Look.punct] using holds
  refine .node .qualifiedName (.congr peeked (.fork (.congr Rule.run_assoc
    (.seq (.label .module Rule.name_atomic .name) (name_handsOver .module)
      (.followed (.takeKind colons (by decide))
      (.label .name Rule.name_atomic .name) (by decide)) (by decide) (by decide)))
        (.label .name Rule.name_atomic .name) ?_ ?_ (by decide)))
  · intro depth parts tokens _ sentence
    obtain ⟨_, _, rfl, -, sentence⟩ := Form.sentence_token_seq.mp sentence
    obtain ⟨colons, _, rfl, kind, -⟩ := Form.sentence_token_seq.mp sentence
    simp [tokensOf, Part.tokens, Look.holds, Look.punct, kindAhead, kind]
  · intro depth parts tokens clear _ sentence
    obtain ⟨t, rfl, -⟩ := Form.sentence_token.mp sentence
    simpa [tokensOf, Part.tokens, Look.holds, Look.punct, among] using clear

theorem nameList_realizes :
    Realizes host inside given label nameList (.node label .nameList)
      (among [.punct .comma, .punct .star]) :=
  (Realizes.node .nameList (.commaList (.followed .name exportMark_realizes (by decide))
    (by decide))).avoiding (by decide)

theorem typedNameList_realizes :
    Realizes host inside given label typedNameList (.node label .typedNameList)
      (among [.punct .colon, .punct .colonColon]) :=
  (Realizes.node .typedNameList
    (.followed nameList_realizes (.followed (.expect .colon) (.followed (accept_realizes .dotDot)
      (.nested .type (by decide) (by decide)) (by decide)) (by decide)) (by decide))).avoiding
        (by decide)

theorem parameterList_realizes :
    Realizes host inside given label parameterList (.node label .parameterList) (among []) := by
  have value : Realizes .parameterList true anywhere none
      (.optional (.punct .equal) (.inOrder [.take, .labelNext .defaultValue, .expression]))
      (.optional (.inOrder [.punct .equal, .expression (some .defaultValue)]))
      (among [.punct .equal, .punct .colonColon]) :=
    (Realizes.optional (.followed (takePunct_realizes .equal)
      (.labelNext .defaultValue (.nested .expression (by decide) (by decide))) (by decide))
        (by decide)).avoiding (by decide)
  exact (Realizes.node .parameterList (.followed (.expect .leftParen) (.followed .newlines
    (.followed (.listed (· != .name) (.labelNext .params
      (.followed typedNameList_realizes value (by decide)))
      .newlines .newlines (fun tokens => by simp [Look.name, bne]) (by decide))
        (.expect .rightParen) (by decide)) (by decide)) (by decide))).avoiding (by decide)

theorem signature_realizes :
    Realizes host inside given label signature (.node label .signature)
      (among [.punct .colon, .punct .colonColon]) :=
  (Realizes.node .signature (.followed parameterList_realizes
    (.optional (.followed (takePunct_realizes .colon)
      (.labelNext .type (.nested .type (by decide) (by decide))) (by decide)) (by decide))
        (by decide))).avoiding (by decide)

theorem holds_opensWith {k : Keyword} {p : Punct} {tokens : List Token} :
    (opensWith k p).holds tokens = true ↔ ∃ t more, tokens = t :: more ∧
      (t.kind = .name ∧ Keyword.ofSpelling? t.text = some k) ∧ kindAhead more = .punct p := by
  cases tokens with
  | nil => simp [opensWith, Look.holds]
  | cons t more => simp [opensWith, Look.holds, Look.punct, kindAhead, and_assoc]

section
variable {k : Keyword} {p : Punct} {B : Rule} {G : Form} {b : TokenKind → Bool}

theorem opened_realizes
    (rest : Realizes host inside (fun tokens => kindAhead tokens = .punct p) none B G b)
    (opens : ∀ tokens, given tokens → (opensWith k p).holds tokens = true)
    (joins : (Form.keyword k).joins G = true) :
    Realizes host inside given none (.seq .takeKeyword B) (.seq (.keyword k) G) b := by
  have taken : Realizes host inside given none .takeKeyword (.keyword k) (among []) := by
    refine .takeKeyword k fun tokens holds => ?_
    obtain ⟨t, more, rfl, word, -⟩ := holds_opensWith.mp (opens tokens holds)
    exact ⟨t, more, rfl, word⟩
  refine (Realizes.seq taken ?_ rest joins (by simp [among])).avoiding (by simp [among])
  intro enter s t holds run
  obtain ⟨u, more, eq, -, next⟩ := holds_opensWith.mp (opens _ holds)
  simp only [Rule.run, State.takeAs, eq, Outcome.ok.injEq] at run
  subst run
  exact next

theorem bracedType_realizes {kind : NodeKind} {A : Rule} {F : Form} {a : TokenKind → Bool}
    (item : Realizes kind true anywhere none A F a) (braced : production kind = .braced k F)
    (opens : ∀ tokens, given tokens → (opensWith k .leftBrace).holds tokens = true)
    (solid : F.nullable = false)
    (clear : (∀ k ∈ F.first ++ [.semicolon, .newline, .punct .rightBrace, .endOfInput],
      a k = false) ∧ ∀ k ∈ F.first, k ∉ [.semicolon, .newline, .punct .rightBrace, .endOfInput])
    (joins : (Form.items F).joins (.punct .rightBrace) = true ∧
      (Form.punct .leftBrace).joins (.inOrder [.items F, .punct .rightBrace]) = true ∧
      (Form.keyword k).joins (.inOrder [.punct .leftBrace, .items F, .punct .rightBrace]) = true) :
    Realizes host inside given label (bracedType kind A) (.node label kind) (among []) := by
  have items : Realizes kind true anywhere none (.items (.punct .rightBrace) .block A) (.items F) _ :=
    .items (.punct .rightBrace) .block item solid clear.1 clear.2 rfl
  have body : Realizes kind true given none
      (.inOrder [.takeKeyword, .take, .items (.punct .rightBrace) .block A, .expect .rightBrace])
      (.braced k F) _ :=
    opened_realizes (.followed (.takeKind (fun _ ahead => ahead) (by simp)) (.followed items
      (.expect .rightBrace) ⟨joins.1, by decide⟩) ⟨joins.2.1, by simp [among]⟩) opens joins.2.2
  rw [← braced] at body
  exact (Realizes.node kind body).avoiding (by simp [among, Form.vanishes, Form.inOrder, Form.punct])

theorem ptrType_realizes
    (opens : ∀ tokens, given tokens →
      kindAhead tokens = .punct .caret ∨ (opensWith .weak .caret).holds tokens = true) :
    Realizes host inside given label ptrType (.node label .ptrType) (among [.punct .colon, .punct .colonColon]) := by
  have weak : Realizes .ptrType true (fun tokens => given tokens ∧ Look.name.holds tokens = true)
      none .takeKeyword (.keyword .weak) (among []) := by
    refine .takeKeyword .weak fun tokens ⟨holds, isName⟩ => ?_
    have isName : kindAhead tokens = .name := by simpa [Look.name] using isName
    obtain caret | opened := opens tokens holds
    · simp [caret] at isName
    · obtain ⟨t, more, rfl, word, -⟩ := holds_opensWith.mp opened
      exact ⟨t, more, rfl, word⟩
  exact (Realizes.node .ptrType (.followed (.optional weak (by decide)) (.followed (.expect .caret)
    (.nested .type (by decide) (by decide)) (by decide)) (by decide))).avoiding (by decide)

theorem arrayType_realizes (opens : ∀ tokens, given tokens → kindAhead tokens = .punct .leftBracket) :
    Realizes host inside given label arrayType (.node label .arrayType)
      (among [.punct .colon, .punct .colonColon]) :=
  (Realizes.node .arrayType (.followed (.takeKind opens (by decide))
    (.followed (.nested .expression (by decide) (by decide)) (.followed (.expect .rightBracket)
      (.nested .type (by decide) (by decide)) (by decide)) (by decide)) (by decide))).avoiding
        (by decide)

theorem dynArrayType_realizes
    (opens : ∀ tokens, given tokens → ∃ t more, tokens = t :: more ∧
      t.kind = .punct .leftBracket ∧ kindAhead more = .punct .rightBracket) :
    Realizes host inside given label dynArrayType (.node label .dynArrayType)
      (among [.punct .colon, .punct .colonColon]) := by
  have closes : ∀ tokens, (∃ t, given (t :: tokens)) → kindAhead tokens = .punct .rightBracket := by
    rintro tokens ⟨t, holds⟩
    obtain ⟨_, _, eq, -, ahead⟩ := opens _ holds
    cases eq
    exact ahead
  refine (Realizes.node .dynArrayType (.taking (.inl rfl)
    (.takeKind (fun tokens holds => ?_) (by decide))
    (.followed (.takeKind closes (by decide)) (.nested .type (by decide) (by decide)) (by decide))
    (fun tokens holds => ?_) (by decide))).avoiding (by decide)
  · obtain ⟨t, more, rfl, kind, -⟩ := opens tokens holds
    exact kind
  · obtain ⟨t, more, rfl, -⟩ := opens tokens holds
    exact List.cons_ne_nil _ _

theorem mapType_realizes
    (opens : ∀ tokens, given tokens → (opensWith .map .leftBracket).holds tokens = true) :
    Realizes host inside given label mapType (.node label .mapType) (among [.punct .colon, .punct .colonColon]) :=
  (Realizes.node .mapType (opened_realizes (.followed (.expect .leftBracket)
    (.followed (.nested .type (by decide) (by decide)) (.followed (.expect .rightBracket)
      (.nested .type (by decide) (by decide)) (by decide)) (by decide)) (by decide)) opens
        (by decide))).avoiding (by decide)

theorem enumType_realizes
    (opens : ∀ tokens, given tokens → (opensWith .enum .leftBrace).holds tokens = true) :
    Realizes host inside given label enumType (.node label .enumType) (among []) :=
  bracedType_realizes (.node .enumItem (.named .name .name .terminator Rule.name_atomic
    (by decide))) rfl opens
    (by decide) (by decide) (by decide)

theorem structType_realizes
    (opens : ∀ tokens, given tokens → (opensWith .struct .leftBrace).holds tokens = true) :
    Realizes host inside given label structType (.node label .structType) (among []) :=
  bracedType_realizes (.followed typedNameList_realizes .terminator (by decide)) rfl opens
    (by decide) (by decide) (by decide)

theorem interfaceItem_realizes :
    Realizes host inside given label interfaceItem (.node label .interfaceItem)
      (among [.punct .leftParen, .punct .colon, .punct .colonColon]) := by
  refine .node .interfaceItem (.congr Rule.run_name_branch (.fork
    (.named .name .name (.labelNext .signature signature_realizes) Rule.name_atomic (by decide))
      (.label .type Rule.name_atomic .name) ?_ ?_ (by decide)))
  · intro depth parts tokens valid sentence
    obtain ⟨t, more, rfl, -, sentence⟩ := Form.sentence_token_seq.mp sentence
    obtain ⟨-, never⟩ | ⟨-, first⟩ := valid.tail.opens sentence
    · cases never
    · have first : firstKind more (kindAhead tokens) = .punct .leftParen := List.mem_singleton.mp first
      simpa [tokensOf, Part.tokens, Look.holds, Look.punct] using first
  · intro depth parts tokens clear _ sentence
    obtain ⟨t, rfl, -⟩ := Form.sentence_token.mp sentence
    have other : kindAhead tokens ≠ .punct .leftParen := by
      intro paren
      simp [paren, among] at clear
    simpa [tokensOf, Part.tokens, Look.holds, Look.punct] using other

theorem interfaceType_realizes
    (opens : ∀ tokens, given tokens → (opensWith .interface .leftBrace).holds tokens = true) :
    Realizes host inside given label interfaceType (.node label .interfaceType) (among []) :=
  bracedType_realizes (.followed interfaceItem_realizes .terminator (by decide)) rfl opens
    (by decide) (by decide) (by decide)

theorem closureType_realizes
    (opens : ∀ tokens, given tokens → (opensWith .fn .leftParen).holds tokens = true) :
    Realizes host inside given label closureType (.node label .closureType)
      (among [.punct .colon, .punct .colonColon]) :=
  .node .closureType (opened_realizes (.labelNext .signature signature_realizes) opens
    (by decide))

end

/-! ### Telling types apart -/

def TypeOpening : NodeKind → List Token → Prop
  | .ptrType, tokens =>
      kindAhead tokens = .punct .caret ∨ (opensWith .weak .caret).holds tokens = true
  | .dynArrayType, tokens =>
      kindAhead tokens = .punct .leftBracket ∧ kindAhead tokens.tail = .punct .rightBracket
  | .arrayType, tokens =>
      kindAhead tokens = .punct .leftBracket ∧ kindAhead tokens.tail ≠ .punct .rightBracket
  | .enumType, tokens => (opensWith .enum .leftBrace).holds tokens = true
  | .structType, tokens => (opensWith .struct .leftBrace).holds tokens = true
  | .interfaceType, tokens => (opensWith .interface .leftBrace).holds tokens = true
  | .mapType, tokens => (opensWith .map .leftBracket).holds tokens = true
  | .closureType, tokens => (opensWith .fn .leftParen).holds tokens = true
  | .qualifiedName, tokens => kindAhead tokens = .name ∧
      ∀ k p, k.opener? = some p → (opensWith k p).holds tokens = false
  | _, _ => False

theorem first_behind_keyword {k : Keyword} {form : Form} {parts : List Part} {depth : Nat}
    {tokens : List Token}
    (sentence : (Form.seq (.keyword k) form).Sentence False parts (kindAhead tokens))
    (valid : Valid host depth parts (kindAhead tokens)) (solid : form.nullable = false) :
    ∃ t more, tokensOf parts ++ tokens = t :: more ∧
      (t.kind = .name ∧ Keyword.ofSpelling? t.text = some k) ∧ kindAhead more ∈ form.first := by
  obtain ⟨t, more, rfl, word, rest⟩ := Form.sentence_keyword_seq.mp sentence
  refine ⟨t, _, rfl, word, ?_⟩
  obtain ⟨-, nullable⟩ | ⟨-, mem⟩ := valid.tail.opens rest
  · simp [solid] at nullable
  · simpa using mem

theorem opensWith_of_sentence {k : Keyword} {p : Punct} {form : Form} {parts : List Part}
    {depth : Nat} {tokens : List Token}
    (sentence : (Form.seq (.keyword k) form).Sentence False parts (kindAhead tokens))
    (valid : Valid host depth parts (kindAhead tokens)) (first : form.first = [.punct p])
    (solid : form.nullable = false) : (opensWith k p).holds (tokensOf parts ++ tokens) = true := by
  obtain ⟨t, more, eq, word, mem⟩ := first_behind_keyword sentence valid solid
  rw [first, List.mem_singleton] at mem
  exact holds_opensWith.mpr ⟨t, more, eq, word, mem⟩

theorem typeOpening {depth : Nat} {part : Part} {tokens : List Token} {symbol : Symbol}
    (valid : Valid host depth [part] (kindAhead tokens)) (hosts : host ≠ .primary)
    (mem : symbol ∈ Category.type.symbols) (fits : symbol.Fits part) :
    ∃ kind, symbol = .node kind ∧ TypeOpening kind (tokensOf [part] ++ tokens) := by
  have careful : Careful host depth part (kindAhead tokens) := valid.careful [] part [] rfl
  simp only [Category.symbols, List.mem_cons, List.not_mem_nil, or_false] at mem
  -- One case for each kind of type, in the order of the rule.
  rcases mem with rfl | rfl | rfl | rfl | rfl | rfl | rfl | rfl | rfl <;>
    obtain ⟨own, parts, rfl⟩ := Symbol.fits_node.mp fits <;>
    obtain ⟨inner, sentence, -⟩ := valid.inside <;>
    refine ⟨_, rfl, ?_⟩ <;>
    simp only [tokensOf, Part.tokens, List.append_nil]
  · obtain ⟨left, right, rfl, weak | plain, rest⟩ := sentence
    · exact .inr (opensWith_of_sentence ⟨left, right, rfl, weak, rest⟩ inner rfl rfl)
    · obtain rfl : left = [] := plain
      obtain ⟨t, more, rfl, kind, -⟩ := Form.sentence_token_seq.mp rest
      exact .inl kind
  · obtain ⟨t, more, rfl, open_, rest⟩ := Form.sentence_token_seq.mp sentence
    obtain ⟨u, more, rfl, close, -⟩ := Form.sentence_token_seq.mp rest
    exact ⟨open_, close⟩
  · obtain ⟨t, more, rfl, open_, left, right, rfl, size, rest⟩ := Form.sentence_token_seq.mp sentence
    refine ⟨open_, ?_⟩
    change kindAhead (tokensOf (left ++ right) ++ tokens) ≠ _
    rw [kindAhead_append, firstKind_append]
    obtain ⟨-, never⟩ | ⟨-, mem⟩ := inner.tail.of_append_left.opens size
    · cases never
    · intro eq
      rw [eq] at mem
      revert mem
      decide
  · exact opensWith_of_sentence sentence inner rfl rfl
  · exact opensWith_of_sentence sentence inner rfl rfl
  · exact opensWith_of_sentence sentence inner rfl rfl
  · exact opensWith_of_sentence sentence inner rfl rfl
  · exact opensWith_of_sentence sentence inner rfl rfl
  · obtain qualified | plain := sentence
    · obtain ⟨t, more, rfl, isName, rest⟩ := Form.sentence_token_seq.mp qualified
      obtain ⟨u, more, rfl, colons, -⟩ := Form.sentence_token_seq.mp rest
      refine ⟨isName, fun k p opener => ?_⟩
      rw [Bool.eq_false_iff, ne_eq, holds_opensWith]
      rintro ⟨_, _, eq, -, ahead⟩
      cases eq
      have same : TokenKind.punct .colonColon = .punct p := colons.symm.trans ahead
      cases same
      cases k <;> cases opener
    · obtain ⟨t, rfl, isName⟩ := Form.sentence_token.mp plain
      refine ⟨isName, fun k p opener => ?_⟩
      rw [Bool.eq_false_iff, ne_eq, holds_opensWith]
      rintro ⟨_, _, eq, ⟨-, word⟩, ahead⟩
      cases eq
      -- A plain name could be read as the keyword of a type, which the condition on names
      -- excludes.
      exact careful.typeName hosts t rfl k word p opener ahead

def typeWays (label : Option FieldName) : List (Look × Rule × Form) :=
  [(.punct .caret, ptrType, .node label .ptrType),
    (.both (.punct .leftBracket) (.next (.punct .rightBracket)), dynArrayType,
      .node label .dynArrayType),
    (.punct .leftBracket, arrayType, .node label .arrayType),
    (opensWith .weak .caret, ptrType, .node label .ptrType),
    (opensWith .enum .leftBrace, enumType, .node label .enumType),
    (opensWith .struct .leftBrace, structType, .node label .structType),
    (opensWith .interface .leftBrace, interfaceType, .node label .interfaceType),
    (opensWith .map .leftBracket, mapType, .node label .mapType),
    (opensWith .fn .leftParen, closureType, .node label .closureType),
    (.name, qualifiedName, .node label .qualifiedName)]

theorem opensWith_other {k j : Keyword} {p : Punct} {tokens : List Token}
    (holds : (opensWith k p).holds tokens = true) (other : j ≠ k) (q : Punct) :
    (opensWith j q).holds tokens = false := by
  obtain ⟨t, more, rfl, ⟨-, word⟩, -⟩ := holds_opensWith.mp holds
  rw [Bool.eq_false_iff, ne_eq, holds_opensWith]
  rintro ⟨_, _, eq, ⟨-, word'⟩, -⟩
  cases eq
  exact other (Option.some.inj (word'.symm.trans word))

theorem kindAhead_of_opensWith {k : Keyword} {p : Punct} {tokens : List Token}
    (holds : (opensWith k p).holds tokens = true) : kindAhead tokens = .name := by
  obtain ⟨t, more, rfl, ⟨isName, -⟩, -⟩ := holds_opensWith.mp holds
  exact isName

theorem typeWays_find {kind : NodeKind} {tokens : List Token} (opening : TypeOpening kind tokens) :
    ((typeWays label).find? (·.1.holds tokens)).map (·.2.2) = some (.node label kind) := by
  have punct : ∀ p, (Look.punct p).holds tokens = (kindAhead tokens == .punct p) := fun _ => rfl
  have brackets : (Look.both (.punct .leftBracket) (.next (.punct .rightBracket))).holds tokens =
      (kindAhead tokens == .punct .leftBracket && kindAhead tokens.tail == .punct .rightBracket) := rfl
  simp only [typeWays, List.find?_cons, punct, brackets]
  cases kind with
  | ptrType =>
      obtain caret | weak := opening
      · simp only [caret]
        rfl
      · simp only [kindAhead_of_opensWith weak, weak]
        rfl
  | dynArrayType =>
      simp only [opening.1, opening.2]
      rfl
  | arrayType =>
      have sized : (kindAhead tokens.tail == .punct .rightBracket) = false := by simpa using opening.2
      simp only [opening.1, sized]
      rfl
  | enumType | structType | interfaceType | mapType | closureType =>
      have isName := kindAhead_of_opensWith opening
      have others := fun j => @opensWith_other _ j _ tokens opening
      have opening : (opensWith _ _).holds tokens = true := opening
      simp only [isName, opening, others, ne_eq, reduceCtorEq, not_false_eq_true]
      rfl
  | qualifiedName =>
      obtain ⟨isName, plain⟩ := opening
      simp only [isName, plain .weak .caret rfl, plain .enum .leftBrace rfl,
        plain .struct .leftBrace rfl, plain .interface .leftBrace rfl, plain .map .leftBracket rfl,
        plain .fn .leftParen rfl, Look.name, Look.holds_kind]
      rfl
  | _ => exact opening.elim

theorem typeRule_realizes (hosts : host ≠ .primary) :
    Realizes host inside given label typeRule (Category.type.form label) Category.type.avoid := by
  refine .chooseOrFail (typeWays label) rfl ?_ ?_
  · have sub : ∀ kind, Symbol.node kind ∈ Category.type.symbols → _ := fun kind mem =>
      @Form.Sentence.widen label _ _ (List.cons_subset.mpr ⟨mem, List.nil_subset _⟩)
    simp only [typeWays, List.forall_mem_cons, List.not_mem_nil, false_implies, implies_true,
      and_true]
    exact ⟨⟨.avoiding (ptrType_realizes fun _ holds => .inl (by simpa [Look.punct] using holds))
      (by decide),
        sub _ (by decide)⟩,
      ⟨.avoiding (dynArrayType_realizes fun tokens holds => by
        cases tokens with
        | nil => simp [Look.holds, Look.punct, kindAhead] at holds
        | cons t more => simpa [Look.holds, Look.punct, kindAhead] using holds) (by decide), sub _
          (by decide)⟩,
      ⟨.avoiding (arrayType_realizes fun _ holds => by simpa [Look.punct] using holds) (by decide),
        sub _ (by decide)⟩,
      ⟨.avoiding (ptrType_realizes fun _ holds => .inr holds) (by decide), sub _ (by decide)⟩,
      ⟨.avoiding (enumType_realizes fun _ holds => holds) (by decide), sub _ (by decide)⟩,
      ⟨.avoiding (structType_realizes fun _ holds => holds) (by decide), sub _ (by decide)⟩,
      ⟨.avoiding (interfaceType_realizes fun _ holds => holds) (by decide), sub _ (by decide)⟩,
      ⟨.avoiding (mapType_realizes fun _ holds => holds) (by decide), sub _ (by decide)⟩,
      ⟨.avoiding (closureType_realizes fun _ holds => holds) (by decide), sub _ (by decide)⟩,
      ⟨.avoiding qualifiedName_realizes (by decide), sub _ (by decide)⟩⟩
  · rintro depth parts tokens valid ⟨part, rfl, named, symbol, mem, fits⟩
    obtain ⟨kind, rfl, opening⟩ := typeOpening valid hosts mem fits
    exact ⟨_, typeWays_find opening, part, rfl, named, _, List.mem_singleton_self _, fits⟩

/-! ## Literals and calls -/

theorem splits_realizes {look : Look} (kind : NodeKind) (byKind : look.byKind = true)
    (same : ∀ k ∈ anyKind, look.ofKind k = kind.splits k) :
    Realizes host inside (fun tokens => look.holds tokens = true) label (.literal kind kind.flavor)
      (.one label [.literal kind]) (among []) := by
  refine .literal kind fun tokens holds => ?_
  rw [Look.holds_of_byKind byKind, same _ (mem_anyKind _)] at holds
  cases tokens with
  | nil => cases holds
  | cons t more => exact ⟨t, more, rfl, holds⟩

theorem stringLiteral_realizes (flavor : Flavor) :
    Realizes host inside given label (stringLiteral flavor) (.one label [.literal (stringKind flavor)])
      (among []) := by
  have ownFlavor : (stringKind flavor).flavor = flavor := by cases flavor <;> rfl
  have same : ∀ k ∈ anyKind, Look.string.ofKind k = (stringKind flavor).splits k := by
    cases flavor <;> decide
  have split := @splits_realizes host inside label Look.string (stringKind flavor) rfl same
  rw [ownFlavor] at split
  refine .branch (.weaken split fun _ holds => holds.2) (.fail _ (by cases flavor <;> rfl) ?_)
  rintro depth parts tokens ⟨-, missing⟩ - - ⟨part, rfl, -, symbol, mem, fits⟩
  obtain rfl := List.mem_singleton.mp mem
  cases part with
  | literal own kind t =>
      have found : Look.string.ofKind t.kind = true := (same _ (mem_anyKind _)).trans fits.2
      rw [Look.holds_of_byKind rfl] at missing
      exact absurd (missing.symm.trans found) (by decide)
  | token | keyword | node => exact fits.elim

theorem number_realizes {k : TokenKind} (kind : NodeKind)
    (single : production kind = .one none [.token k]) (token : k ≠ .endOfInput) :
    Realizes host inside (fun tokens => (Look.kind k).holds tokens = true) label (number kind)
      (.node label kind) (among []) :=
  .node kind (single ▸ .takeKind (fun tokens holds => by simpa using holds) token)

theorem argument_realizes (hosts : host ≠ .primary ∧ host ≠ .callStmt) :
    Realizes host true given none argument (.expression (some .arguments))
      (among [.punct .colonColon]) :=
  .labelNext .arguments (.nested .expression hosts.1 hosts.2)

theorem builtinArguments_realizes (family : BuiltinFamily) :
    Realizes .builtinCall true anywhere none (builtinArguments family) (.builtinArguments family)
      (among [.punct .comma, .punct .colon, .punct .colonColon]) := by
  have arguments : Realizes .builtinCall true anywhere none (.commaList argument)
      (.commaList (.expression (some .arguments))) (among [.punct .comma, .punct .colonColon]) :=
    (Realizes.commaList (argument_realizes (by decide)) (by decide)).avoiding (by decide)
  cases family with
  | format =>
      exact (Realizes.labelNext .arguments (.followed (stringLiteral_realizes .format)
        (.optional (.followed (takePunct_realizes .comma) arguments (by decide)) (by decide))
          (by decide))).avoiding (by decide)
  | make =>
      exact (Realizes.labelNext .arguments (.followed (.nested .type (by decide) (by decide))
        (.followed (.expect .comma) (argument_realizes (by decide)) (by decide))
          (by decide))).avoiding (by decide)
  | singleType =>
      exact (Realizes.labelNext .arguments (.nested .type (by decide) (by decide))).avoiding
        (by decide)
  | basic => exact arguments.avoiding (by decide)

def opensCall (family : BuiltinFamily) : Look := .both (.builtin family) (.next (.punct .leftParen))

theorem holds_opensCall {family : BuiltinFamily} {tokens : List Token} :
    (opensCall family).holds tokens = true ↔ ∃ t more, tokens = t :: more ∧
      (t.kind = .name ∧ BuiltinFamily.ofName? t.text = some family) ∧
        kindAhead more = .punct .leftParen := by
  cases tokens with
  | nil => simp [opensCall, Look.holds]
  | cons t more => simp [opensCall, Look.holds, Look.punct, kindAhead, and_assoc]

theorem opensCall_of_sentence {family : BuiltinFamily} {parts : List Part} {next : TokenKind}
    (sentence : (Form.builtinCall family).Sentence False parts next) (tokens : List Token) :
    (opensCall family).holds (tokensOf parts ++ tokens) = true := by
  obtain ⟨part, more, rfl, -, ⟨symbol, mem, fits⟩, rest⟩ := Form.sentence_one_seq.mp sentence
  obtain rfl := List.mem_singleton.mp mem
  obtain ⟨u, more, rfl, paren, -⟩ := Form.sentence_token_seq.mp rest
  cases part with
  | token own t => exact holds_opensCall.mpr ⟨t, _, rfl, fits, paren⟩
  | keyword | literal | node => exact fits.elim

theorem sentence_builtinCall {broken : Prop} {parts : List Part} {next : TokenKind} :
    (production .builtinCall).Sentence broken parts next ↔
      ∃ family, (Form.builtinCall family).Sentence broken parts next := by
  constructor
  · rintro (sentence | sentence | sentence | sentence)
    all_goals exact ⟨_, sentence⟩
  · rintro ⟨family, sentence⟩
    cases family with
    | format => exact .inl sentence
    | make => exact .inr (.inl sentence)
    | singleType => exact .inr (.inr (.inl sentence))
    | basic => exact .inr (.inr (.inr sentence))

theorem builtinCall_realizes (family : BuiltinFamily) :
    Realizes host inside (fun tokens => (opensCall family).holds tokens = true) label
      (builtinCall family) (.node label .builtinCall) (among []) := by
  have function : Realizes .builtinCall true (fun tokens => (opensCall family).holds tokens = true)
      none .take (.one none [.builtin family]) (among []) := by
    refine .take (fun tokens holds => ?_) (by simp [Symbol.isToken])
    obtain ⟨t, more, rfl, word, -⟩ := holds_opensCall.mp holds
    exact ⟨t, more, rfl, .builtin family, List.mem_singleton_self _, word⟩
  have body : Realizes .builtinCall true (fun tokens => (opensCall family).holds tokens = true)
      none (.inOrder [.take, .label .name, .expect .leftParen, builtinArguments family,
        .expect .rightParen]) (.builtinCall family) (among []) := by
    cases family <;> exact (Realizes.named .name function (.followed (.expect .leftParen)
      (.followed (builtinArguments_realizes _) (.expect .rightParen) (by decide)) (by decide))
        Rule.take_atomic (by decide)).avoiding (by decide)
  refine .node .builtinCall (.restrict body (fun _ _ _ sentence =>
    sentence_builtinCall.mpr ⟨family, sentence⟩) (fun _ _ h => h) ?_)
  intro depth parts tokens holds _ _ sentence
  obtain ⟨other, sentence⟩ := sentence_builtinCall.mp sentence
  obtain ⟨t, more, eq, word, -⟩ := holds_opensCall.mp (opensCall_of_sentence sentence tokens)
  obtain ⟨t', more', eq', word', -⟩ := holds_opensCall.mp holds
  rw [eq] at eq'
  cases eq'
  obtain rfl : other = family := Option.some.inj (word.2.symm.trans word'.2)
  exact sentence

def callWays : List (Look × Rule × Form) :=
  BuiltinFamily.all.map fun family =>
    (opensCall family, builtinCall family, .node none .builtinCall)

theorem primary_realizes :
    Realizes host inside given label primary (.node label .primary) (among [.punct .colonColon]) := by
  have call : ∀ {depth part tokens}, Valid .primary depth [part] (kindAhead tokens) →
      (Symbol.node .builtinCall).Fits part →
        ∃ family, (opensCall family).holds (tokensOf [part] ++ tokens) = true := by
    intro depth part tokens valid fits
    obtain ⟨own, parts, rfl⟩ := Symbol.fits_node.mp fits
    obtain ⟨family, sentence⟩ := sentence_builtinCall.mp valid.inside.2.1
    refine ⟨family, ?_⟩
    simpa [tokensOf, Part.tokens] using opensCall_of_sentence sentence tokens
  -- A name in front of a parenthesis is a call if it is built in, which the condition on names
  -- excludes.
  have noCall : ∀ {depth part tokens family}, Valid .primary depth [part] (kindAhead tokens) →
      (Symbol.node .qualifiedName).Fits part →
        (opensCall family).holds (tokensOf [part] ++ tokens) = false := by
    intro depth part tokens family valid fits
    obtain ⟨own, parts, rfl⟩ := Symbol.fits_node.mp fits
    rw [Bool.eq_false_iff, ne_eq, holds_opensCall]
    rintro ⟨u, more, eq, ⟨-, word⟩, paren⟩
    simp only [tokensOf, Part.tokens, List.append_nil] at eq
    obtain qualified | plain := valid.inside.2.1
    · obtain ⟨t, more, rfl, -, rest⟩ := Form.sentence_token_seq.mp qualified
      obtain ⟨v, more, rfl, colons, -⟩ := Form.sentence_token_seq.mp rest
      cases eq
      exact absurd (colons.symm.trans paren) (by decide)
    · obtain ⟨t, rfl, -⟩ := Form.sentence_token.mp plain
      cases eq
      exact (valid.careful [] _ [] rfl).builtin rfl u rfl (by simp [word]) paren
  refine .node .primary (.choose callWays ?_ ?_ ?_)
  · intro way mem
    obtain ⟨family, -, rfl⟩ := List.mem_map.mp mem
    exact ⟨(builtinCall_realizes family).avoiding (by decide), @Form.Sentence.widen none _ _
      (by decide)⟩
  · rintro depth parts tokens - - valid ⟨part, rfl, named, symbol, mem, fits⟩ way found
    obtain ⟨family, -, rfl⟩ := List.mem_map.mp (List.mem_of_find?_eq_some found)
    simp only [List.mem_cons, List.not_mem_nil, or_false] at mem
    obtain rfl | rfl := mem
    · exact ⟨part, rfl, named, _, List.mem_singleton_self _, fits⟩
    · have holds := List.find?_some found
      rw [noCall valid fits] at holds
      cases holds
  · refine .restrict qualifiedName_realizes (@Form.Sentence.widen none _ _ (by decide)) (by decide) ?_
    rintro depth parts tokens ⟨-, missing⟩ - valid ⟨part, rfl, named, symbol, mem, fits⟩
    simp only [List.mem_cons, List.not_mem_nil, or_false] at mem
    obtain rfl | rfl := mem
    · obtain ⟨family, holds⟩ := call valid fits
      have way : (opensCall family, builtinCall family, Form.node none .builtinCall) ∈ callWays :=
        List.mem_map.mpr ⟨family, by cases family <;> decide, rfl⟩
      exact absurd holds (List.find?_eq_none.mp missing _ way)
    · exact ⟨part, rfl, named, _, List.mem_singleton_self _, fits⟩

/-! ## Braces and expressions -/

theorem mapValue_realizes :
    Realizes .mapEntry true anywhere none mapValue
      (.inOrder [.punct .colon, .terminators, .expression (some .value)])
      (among [.punct .colonColon]) :=
  (Realizes.followed (.expect .colon) (.followed .terminators
    (.labelNext .value (.nested .expression (by decide) (by decide))) (by decide))
      (by decide)).avoiding (by decide)

theorem mapEntry_realizes :
    Realizes host inside given label mapEntry (.node label .mapEntry) (among [.punct .colonColon]) :=
  (Realizes.node .mapEntry (.labelNext .key (.followed (.nested .expression (by decide) (by decide))
    mapValue_realizes (by decide)))).avoiding (by decide)

theorem braceLiteral_realizes :
    Realizes host inside (fun tokens => (Look.punct .leftBrace).holds tokens = true) label
      braceLiteral (.one label [.node .arrayLiteral, .node .mapLiteral]) (among []) :=
  .brace (fun tokens holds => by simpa [Look.punct] using holds) mapValue_realizes
    ((Realizes.followed (.optional (.followed (takePunct_realizes .comma) (.followed .terminators
      (.listed (· == .punct .rightBrace) mapEntry_realizes .done .terminators (fun _ => rfl)
        (by decide)) (by decide)) (by decide)) (by decide))
      (.followed .terminators (.expect .rightBrace) (by decide)) (by decide)).avoiding (by decide))
    ((Realizes.followed (.optional (.followed (takePunct_realizes .comma) (.followed .terminators
      (.listed (· == .punct .rightBrace) (.nested .expression (by decide) (by decide)) .done
        .terminators (fun _ => rfl) (by decide)) (by decide)) (by decide)) (by decide))
          (.followed .terminators (.expect .rightBrace) (by decide)) (by decide)).avoiding (by decide))

def expressionWays (label : Option FieldName) : List (Look × Rule × Form) :=
  [(.string, stringLiteral .plain, .one label [.literal .stringLiteral]),
    (.character, .literal .charLiteral .plain, .one label [.literal .charLiteral]),
    (.kind .decNumber, number .decNumber, .node label .decNumber),
    (.kind .hexNumber, number .hexNumber, .node label .hexNumber),
    (.kind .realNumber, number .realNumber, .node label .realNumber),
    (.name, primary, .node label .primary),
    (.punct .leftBrace, braceLiteral, .one label [.node .arrayLiteral, .node .mapLiteral])]

theorem expressionWays_find {symbol : Symbol} {tokens : List Token}
    (mem : symbol ∈ Category.expression.symbols) (first : kindAhead tokens ∈ symbol.first) :
    ∃ symbols, symbol ∈ symbols ∧
      ((expressionWays label).find? (·.1.holds tokens)).map (·.2.2) = some (.one label symbols) := by
  have test : ∀ look : Look, look.byKind = true → look.holds tokens = look.ofKind (kindAhead tokens) :=
    fun look byKind => Look.holds_of_byKind byKind tokens
  simp only [expressionWays, List.find?_cons, test _ (rfl : Look.string.byKind = true),
    test _ (rfl : Look.character.byKind = true), test _ (rfl : Look.name.byKind = true),
    test (.kind _) rfl, test _ (rfl : (Look.punct .leftBrace).byKind = true)]
  generalize kindAhead tokens = k at first
  have string : (Symbol.literal .stringLiteral).first = [.string true, .string false] := by decide
  have character : (Symbol.literal .charLiteral).first = [.character true, .character false] := by
    decide
  simp only [Category.symbols, List.mem_cons, List.not_mem_nil, or_false] at mem
  rcases mem with rfl | rfl | rfl | rfl | rfl | rfl | rfl | rfl
  · rw [string] at first
    simp only [List.mem_cons, List.not_mem_nil, or_false] at first
    obtain rfl | rfl := first <;> exact ⟨_, List.mem_singleton_self _, rfl⟩
  · rw [character] at first
    simp only [List.mem_cons, List.not_mem_nil, or_false] at first
    obtain rfl | rfl := first <;> exact ⟨_, List.mem_singleton_self _, rfl⟩
  all_goals obtain rfl := List.mem_singleton.mp first
  · exact ⟨_, List.mem_singleton_self _, rfl⟩
  · exact ⟨_, List.mem_singleton_self _, rfl⟩
  · exact ⟨_, List.mem_singleton_self _, rfl⟩
  · exact ⟨_, List.mem_singleton_self _, rfl⟩
  · exact ⟨_, List.mem_cons_self, rfl⟩
  · exact ⟨_, List.mem_cons_of_mem _ (List.mem_singleton_self _), rfl⟩

theorem expressionRule_realizes :
    Realizes host inside given label expressionRule (Category.expression.form label)
      Category.expression.avoid := by
  refine .chooseOrFail (expressionWays label) rfl ?_ ?_
  · have sub : ∀ symbols, symbols ⊆ Category.expression.symbols → _ := fun symbols sub =>
      @Form.Sentence.widen label _ _ sub
    simp only [expressionWays, List.forall_mem_cons, List.not_mem_nil, false_implies, implies_true,
      and_true]
    exact ⟨⟨.avoiding (stringLiteral_realizes .plain) (by decide), sub _ (by decide)⟩,
      ⟨.avoiding (splits_realizes .charLiteral rfl (by decide)) (by decide), sub _ (by decide)⟩,
      ⟨.avoiding (number_realizes .decNumber rfl (by decide)) (by decide), sub _ (by decide)⟩,
      ⟨.avoiding (number_realizes .hexNumber rfl (by decide)) (by decide), sub _ (by decide)⟩,
      ⟨.avoiding (number_realizes .realNumber rfl (by decide)) (by decide), sub _ (by decide)⟩,
      ⟨.avoiding primary_realizes (by decide), sub _ (by decide)⟩,
      ⟨.avoiding braceLiteral_realizes (by decide), sub _ (by decide)⟩⟩
  · rintro depth parts tokens valid ⟨part, rfl, named, symbol, mem, fits⟩
    have first : kindAhead (tokensOf [part] ++ tokens) ∈ symbol.first := by
      rw [kindAhead_append]
      exact (fits.first valid.begun.1).2 [] _
    obtain ⟨symbols, own, found⟩ := @expressionWays_find label _ _ mem first
    exact ⟨_, found, part, rfl, named, symbol, own, fits⟩

theorem exprList_realizes :
    Realizes host inside given label exprList (.node label .exprList)
      (among [.punct .comma, .punct .colonColon]) :=
  (Realizes.node .exprList (.commaList (.nested .expression (by decide) (by decide))
    (by decide))).avoiding (by decide)

/-! ## Declarations -/

theorem holds_keyword {k : Keyword} {tokens : List Token} :
    (Look.keyword k).holds tokens = true ↔ ∃ t more, tokens = t :: more ∧
      t.kind = .name ∧ Keyword.ofSpelling? t.text = some k := by
  cases tokens with
  | nil => simp [Look.holds]
  | cons t more => simp [Look.holds]

theorem takeKeyword_realizes {k : Keyword}
    (word : ∀ tokens, given tokens → (Look.keyword k).holds tokens = true) :
    Realizes host inside given none .takeKeyword (.keyword k) (among []) :=
  .takeKeyword k fun tokens holds => holds_keyword.mp (word tokens holds)

theorem grouped_realizes {k : Keyword} {kind itemKind : NodeKind} {A : Rule}
    (item : ∀ {given}, Realizes kind true given none A (.node none itemKind) (among []))
    (grouped : production kind = .grouped k itemKind)
    (word : ∀ tokens, given tokens → (Look.keyword k).holds tokens = true)
    (starts : ∀ j ∈ (Form.node none itemKind).first,
      j ∉ [.semicolon, .newline, .punct .rightParen, .endOfInput, .punct .leftParen]) :
    Realizes host inside given label (UmkaSyntax.Grammar.grouped kind A) (.node label kind)
      (among []) := by
  have items : Realizes kind true anywhere none (.items (.punct .rightParen) .group A)
      (.items (.node none itemKind)) _ :=
    .items (.punct .rightParen) .group item rfl (by simp [among]) (fun j mem => by
      have := starts j mem
      simp_all) rfl
  have body : Realizes kind true given none _ (.grouped k itemKind) (among []) :=
    .avoiding (.followed (takeKeyword_realizes word) (.choice (.followed
      (takePunct_realizes .leftParen) (.followed items (.followed (.expect .rightParen) .terminator
        ⟨rfl, by simp [among]⟩) ⟨rfl, by decide⟩) ⟨rfl, by simp [among]⟩) item
          ⟨rfl, ?_, rfl, rfl⟩) ⟨rfl, by simp [among]⟩) ?_
  · rw [← grouped] at body
    exact .node kind body
  · refine ⟨fun j mem => ?_, fun j mem => ?_⟩
    · obtain rfl : j = .punct .leftParen := List.mem_singleton.mp mem
      rfl
    · have := starts j mem
      simp_all [Look.punct, Look.ofKind]
  · simp [among, Form.vanishes, Form.inOrder, Form.punct]

theorem importItem_realizes :
    Realizes host inside given label importItem (.node label .importItem) (among []) := by
  have aliased : Realizes .importItem true (fun tokens => given tokens ∧ Look.name.holds tokens = true)
      none (.inOrder [.take, .label .name, .expect .equal, stringLiteral .plain])
      (.inOrder [.name (some .name), .punct .equal, .one none [.literal .stringLiteral]]) _ :=
    .named .name (.takeKind (fun tokens holds => by simpa [Look.name] using holds.2) (by decide))
      (.followed (.expect .equal) (stringLiteral_realizes .plain) (by decide)) Rule.take_atomic
        (by decide)
  exact (Realizes.node .importItem (.followed (.choice aliased (stringLiteral_realizes .path)
    (by decide))
    .terminator (by decide))).avoiding (by decide)

theorem imports_realizes (word : ∀ tokens, given tokens → (Look.keyword .imports).holds tokens = true) :
    Realizes host inside given label imports (.node label .imports) (among []) :=
  grouped_realizes importItem_realizes rfl word (by decide)

theorem constDecl_realizes (word : ∀ tokens, given tokens → (Look.keyword .const).holds tokens = true) :
    Realizes host inside given label constDecl (.node label .constDecl) (among []) :=
  grouped_realizes ((Realizes.node .constItem (.named .name .name (.followed exportMark_realizes
    (.followed (.expect .equal) (.labelNext .value (.followed
      (.nested .expression (by decide) (by decide)) .terminator (by decide))) (by decide))
        (by decide)) Rule.name_atomic (by decide))).avoiding (by decide)) rfl word (by decide)

theorem varDecl_realizes (word : ∀ tokens, given tokens → (Look.keyword .var).holds tokens = true) :
    Realizes host inside given label varDecl (.node label .varDecl) (among []) :=
  grouped_realizes ((Realizes.node .varItem (.labelNext .identifiers
    (.followed typedNameList_realizes
    (.followed (.optional (.followed (takePunct_realizes .equal) (.labelNext .value
      (.nested .expression (by decide) (by decide))) (by decide)) (by decide)) .terminator
        (by decide)) (by decide)))).avoiding (by decide)) rfl word (by decide)

theorem typeDecl_realizes (word : ∀ tokens, given tokens → (Look.keyword .type).holds tokens = true) :
    Realizes host inside given label typeDecl (.node label .typeDecl) (among []) :=
  grouped_realizes ((Realizes.node .typeItem (.named .name .name (.followed exportMark_realizes
    (.followed (.expect .equal) (.labelNext .type (.followed
      (.nested .type (by decide) (by decide)) .terminator (by decide))) (by decide)) (by decide))
        Rule.name_atomic (by decide))).avoiding (by decide)) rfl word (by decide)

theorem shortDecl_realizes (kind : NodeKind) (short : production kind = .shortDecl) :
    Realizes host inside given label (shortDecl kind) (.node label kind) (among []) := by
  have body : Realizes kind true given none _ .shortDecl (among []) :=
    (Realizes.labelNext .identifiers (.followed nameList_realizes (.followed (.expect .colonEqual)
      (.labelNext .values (.followed exprList_realizes .terminator (by decide))) (by decide))
        (by decide))).avoiding (by decide)
  rw [← short] at body
  exact .node kind body

theorem receiver_realizes (opens : ∀ tokens, given tokens → kindAhead tokens = .punct .leftParen) :
    Realizes host inside given label receiver (.node label .receiver) (among []) :=
  (Realizes.node .receiver (.followed (.takeKind opens (by decide)) (.named .name .name
    (.followed (.expect .colon) (.labelNext .type (.followed
      (.nested .type (by decide) (by decide)) (.expect .rightParen) (by decide))) (by decide))
        Rule.name_atomic (by decide)) (by decide))).avoiding (by decide)

def functionRule : Rule :=
  .inOrder [.name, .label .name, exportMark, .labelNext .signature, signature,
    .optional (.punct .leftBrace) (.inOrder [.labelNext .body, .block]), .terminator]

theorem functionRule_realizes (hosts : host ≠ .primary ∧ host ≠ .callStmt) :
    Realizes host true given none functionRule .function (among []) :=
  (Realizes.named .name .name (.followed exportMark_realizes (.labelNext .signature
    (.followed signature_realizes (.followed (.optional (.labelNext .body
      (.nested .block hosts.1 hosts.2)) (by decide)) .terminator (by decide)) (by decide)))
        (by decide)) Rule.name_atomic (by decide)).avoiding (by decide)

/-- The receiver of a method shows behind the keyword, so the kind of the node is known in front of
it. -/
theorem run_fnDecl (enter : Category → State → Outcome) (s : State) :
    fnDecl.run enter s = (Rule.branch (.next (.punct .leftParen))
      (.node .methodDecl (.seq .takeKeyword (.seq (.labelNext .receiver)
        (.seq receiver functionRule))))
      (.node .fnDecl (.seq .takeKeyword functionRule))).run enter s := by
  let taken (kind : NodeKind) : State :=
    (s.onBuilder (Builder.startNode kind s.offset)).takeAs State.asKeyword
  have ahead : (taken .fnDecl).rest = s.rest.tail := by
    simp only [taken, State.takeAs, State.onBuilder]
    cases s.rest <;> rfl
  have retagged : (taken .fnDecl).onBuilder (Builder.mapTop fun n => { n with kind := .methodDecl }) =
      taken .methodDecl := by
    simp only [taken, State.takeAs, State.onBuilder]
    cases s.rest <;> rfl
  change (Outcome.andThen (if (Look.punct .leftParen).holds (taken .fnDecl).rest = true then
      (Rule.seq (.labelNext .receiver) receiver).run enter ((taken .fnDecl).onBuilder
        (Builder.mapTop fun n => { n with kind := .methodDecl }))
    else .ok (taken .fnDecl)) (functionRule.run enter)).andThen _ =
      if (Look.punct .leftParen).holds s.rest.tail = true then
        ((Rule.seq (.labelNext .receiver) (.seq receiver functionRule)).run enter
          (taken .methodDecl)).andThen _
      else (functionRule.run enter (taken .fnDecl)).andThen _
  rw [ahead, retagged, Rule.run_assoc]
  split <;> rfl

theorem fnDecl_realizes (word : ∀ tokens, given tokens → (Look.keyword .fn).holds tokens = true) :
    Realizes host inside given label fnDecl (.one label [.node .methodDecl, .node .fnDecl])
      (among []) := by
  have word' : ∀ tokens b, given tokens ∧ (Look.next (.punct .leftParen)).holds tokens = b →
      (Look.keyword .fn).holds tokens = true := fun tokens _ holds => word tokens holds.1
  have method : Realizes .methodDecl true
      (fun tokens => given tokens ∧ (Look.next (.punct .leftParen)).holds tokens = true) none
      (.seq .takeKeyword (.seq (.labelNext .receiver) (.seq receiver functionRule)))
      (production .methodDecl) (among []) := by
    refine .avoiding (.taking (.inr rfl) (takeKeyword_realizes fun tokens => word' tokens true)
      (.labelNext .receiver (.followed (receiver_realizes ?_) (functionRule_realizes (by decide))
        (by decide))) ?_ (by decide)) (by decide)
    · rintro tokens ⟨t, -, holds⟩
      simpa [Look.holds, Look.punct] using holds
    · intro tokens holds
      obtain ⟨t, more, rfl, -⟩ := holds_keyword.mp (word tokens holds.1)
      exact List.cons_ne_nil _ _
  have function : Realizes .fnDecl true
      (fun tokens => given tokens ∧ (Look.next (.punct .leftParen)).holds tokens = false) none
      (.seq .takeKeyword functionRule) (production .fnDecl) (among []) :=
    .avoiding (.followed (takeKeyword_realizes fun tokens => word' tokens false)
      (functionRule_realizes (by decide)) (by decide)) (by decide)
  refine .congr run_fnDecl (.merge (.fork (.node .methodDecl method) (.node .fnDecl function) ?_
    ?_ (by decide)))
  · intro depth parts tokens valid sentence
    obtain ⟨parts, rfl⟩ := Form.sentence_node.mp sentence
    obtain ⟨inner, sentence, -⟩ := valid.inside
    obtain ⟨t, more, eq, -, mem⟩ := first_behind_keyword sentence inner rfl
    have paren : kindAhead more = .punct .leftParen := List.mem_singleton.mp mem
    simpa [tokensOf, Part.tokens, eq, Look.holds, Look.punct] using paren
  · intro depth parts tokens _ valid sentence
    obtain ⟨parts, rfl⟩ := Form.sentence_node.mp sentence
    obtain ⟨inner, sentence, -⟩ := valid.inside
    obtain ⟨t, more, eq, -, mem⟩ := first_behind_keyword sentence inner rfl
    have isName : kindAhead more = .name := List.mem_singleton.mp mem
    simp [tokensOf, Part.tokens, eq, Look.holds, Look.punct, isName]

/-! ### Telling declarations and statements apart -/

theorem keyword_other {k j : Keyword} {tokens : List Token}
    (holds : (Look.keyword k).holds tokens = true) (other : j ≠ k) :
    (Look.keyword j).holds tokens = false := by
  obtain ⟨t, more, rfl, -, word⟩ := holds_keyword.mp holds
  rw [Bool.eq_false_iff, ne_eq, holds_keyword]
  rintro ⟨_, _, eq, -, word'⟩
  cases eq
  exact other (Option.some.inj (word'.symm.trans word))

theorem keyword_of_kind {k : Keyword} {tokens : List Token} (other : kindAhead tokens ≠ .name) :
    (Look.keyword k).holds tokens = false := by
  rw [Bool.eq_false_iff, ne_eq, holds_keyword]
  rintro ⟨t, more, rfl, isName, -⟩
  exact other isName

theorem declarations_eq : Keyword.declarations = [.imports, .const, .var, .type, .fn] := rfl

def DeclOpening : NodeKind → List Token → Prop
  | .constDecl, tokens => (Look.keyword .const).holds tokens = true
  | .varDecl, tokens => (Look.keyword .var).holds tokens = true
  | .typeDecl, tokens => (Look.keyword .type).holds tokens = true
  | .fnDecl, tokens | .methodDecl, tokens => (Look.keyword .fn).holds tokens = true
  | .block, tokens => kindAhead tokens = .punct .leftBrace
  | .shortVarDecl, tokens | .callStmt, tokens | .declAssignment, tokens =>
      kindAhead tokens = .name ∧ ∀ k ∈ Keyword.declarations, (Look.keyword k).holds tokens = false
  | _, _ => False

def openingKinds : List NodeKind :=
  [.constDecl, .varDecl, .typeDecl, .methodDecl, .fnDecl, .block, .shortVarDecl, .declAssignment,
    .callStmt]

theorem openingKinds_of_mem {symbol : Symbol} (mem : symbol ∈ Form.declarations ++ Form.statements) :
    ∃ kind ∈ openingKinds, symbol = .node kind := by
  have every : ∀ symbol ∈ Form.declarations ++ Form.statements,
      ∃ kind ∈ openingKinds, symbol = .node kind := by
    simp [Form.declarations, Form.statements, openingKinds]
  exact every symbol mem

theorem declOpening {depth : Nat} {own : Option FieldName} {kind : NodeKind} {whole : Bool}
    {parts : List Part} {tokens : List Token}
    (valid : Valid host depth [.node own kind whole parts] (kindAhead tokens))
    (mem : kind ∈ openingKinds) : DeclOpening kind (tokensOf parts ++ tokens) := by
  obtain ⟨inner, sentence, -⟩ := valid.inside
  have word : ∀ {k form}, (Form.seq (.keyword k) form).Sentence False parts (kindAhead tokens) →
      (Look.keyword k).holds (tokensOf parts ++ tokens) = true := by
    intro k form sentence
    obtain ⟨t, more, rfl, word, -⟩ := Form.sentence_keyword_seq.mp sentence
    exact holds_keyword.mpr ⟨t, _, rfl, word⟩
  have name : kind ∈ [NodeKind.callStmt, .declAssignment, .shortVarDecl] → kind.first = [.name] →
      kindAhead (tokensOf parts ++ tokens) = .name ∧
        ∀ k ∈ Keyword.declarations, (Look.keyword k).holds (tokensOf parts ++ tokens) = false := by
    intro free first
    obtain ⟨-, never⟩ | ⟨some, begins⟩ := inner.opens sentence
    · simp [(production_first kind).1] at never
    · have isName := (production_first kind).2 begins
      rw [first, List.mem_singleton] at isName
      refine ⟨by rw [kindAhead_append, isName], fun k mem => ?_⟩
      rw [Bool.eq_false_iff, ne_eq, holds_keyword]
      rintro ⟨t, more, eq, -, spelled⟩
      obtain ⟨u, rest, eq'⟩ := List.exists_cons_of_ne_nil some
      rw [eq'] at eq
      cases eq
      exact (valid.careful [] _ [] rfl).opening own kind whole parts rfl free t (by simp [eq']) k mem
        spelled
  -- In the order of `openingKinds`: first those with a keyword, then blocks, then those that
  -- begin with a name.
  simp only [openingKinds, List.mem_cons, List.not_mem_nil, or_false] at mem
  rcases mem with rfl | rfl | rfl | rfl | rfl | rfl | rfl | rfl | rfl
  · exact word sentence
  · exact word sentence
  · exact word sentence
  · exact word sentence
  · exact word sentence
  · obtain ⟨t, more, rfl, kind, -⟩ := Form.sentence_token_seq.mp sentence
    exact kind
  · exact name (by decide) rfl
  · exact name (by decide) rfl
  · exact name (by decide) rfl

def declarationWays : List (Look × Rule × Form) :=
  [(.keyword .imports, misplacedImport, .skipped), (.keyword .const, constDecl, .node none .constDecl),
    (.keyword .var, varDecl, .node none .varDecl), (.keyword .type, typeDecl, .node none .typeDecl),
    (.keyword .fn, fnDecl, .one none [.node .methodDecl, .node .fnDecl]),
    (.name, shortDecl .shortVarDecl, .node none .shortVarDecl)]

theorem declaration_realizes :
    Realizes host inside given none declaration .declaration (among []) := by
  refine .announce (.chooseOrFail declarationWays (by decide) ?_ ?_)
  · have sub : ∀ symbols, symbols ⊆ Form.declarations → ∀ broken parts next,
        (Form.one none symbols).Sentence broken parts next →
          Form.declaration.Sentence broken parts next := fun symbols sub broken parts next sentence =>
      .inr (Form.Sentence.widen sub broken parts next sentence)
    simp only [declarationWays, List.forall_mem_cons, List.not_mem_nil, false_implies, implies_true,
      and_true]
    exact ⟨⟨.misplaced (imports_realizes fun _ holds => holds), fun _ _ _ => .inl⟩,
      ⟨constDecl_realizes fun _ holds => holds, sub _ (by decide)⟩,
      ⟨varDecl_realizes fun _ holds => holds, sub _ (by decide)⟩,
      ⟨typeDecl_realizes fun _ holds => holds, sub _ (by decide)⟩,
      ⟨fnDecl_realizes fun _ holds => holds, sub _ (by decide)⟩,
      ⟨shortDecl_realizes .shortVarDecl rfl, sub _ (by decide)⟩⟩
  · rintro depth parts tokens valid (⟨never, -⟩ | ⟨part, rfl, named, symbol, mem, fits⟩)
    · exact never.elim
    have single : ∀ symbols, symbol ∈ symbols →
        (Form.one none symbols).Sentence False [part] (kindAhead tokens) :=
      fun symbols own => ⟨part, rfl, named, symbol, own, fits⟩
    simp only [declarationWays, List.find?_cons]
    simp only [Form.declarations, List.mem_cons, List.not_mem_nil, or_false] at mem
    rcases mem with rfl | rfl | rfl | rfl | rfl | rfl <;>
      obtain ⟨own, parts, rfl⟩ := Symbol.fits_node.mp fits <;>
      have opening := declOpening valid (by decide) <;>
      simp only [tokensOf, Part.tokens, List.append_nil]
    rotate_right
    · obtain ⟨isName, free⟩ := opening
      simp only [declarations_eq, List.forall_mem_cons] at free
      simp only [free, Look.name, Look.holds_kind, isName]
      exact ⟨_, rfl, single _ (by decide)⟩
    all_goals
      have others := fun j => @keyword_other _ j _ opening
      simp only [show (Look.keyword _).holds (tokensOf parts ++ tokens) = true from opening, others,
        ne_eq, reduceCtorEq, not_false_eq_true]
      exact ⟨_, rfl, single _ (by decide)⟩

theorem arguments_realizes (opens : ∀ tokens, given tokens → kindAhead tokens = .punct .leftParen) :
    Realizes host inside given label arguments (.node label .arguments) (among []) :=
  (Realizes.node .arguments (.followed (.takeKind opens (by decide)) (.followed
    (.listed (· == .punct .rightParen) (.nested .expression (by decide) (by decide)) .done .done
      (fun _ => rfl) (by decide)) (.expect .rightParen) (by decide)) (by decide))).avoiding
        (by decide)

theorem callStmt_realizes :
    Realizes host inside given label callStmt (.node label .callStmt)
      (among [.punct .leftParen, .punct .colonColon]) :=
  (Realizes.node .callStmt (.labelNext .designator (.followed primary_realizes
    (.optional (.labelNext .arguments (arguments_realizes fun tokens holds => by
      simpa [Look.punct] using holds.2)) (by decide)) (by decide)))).avoiding (by decide)

/-! ## Statements -/

theorem holds_opensAssignment (t : Token) (more : List Token) :
    opensAssignment.holds (t :: more) = (t.kind == .name &&
      (among [.punct .colonEqual, .punct .comma] (kindAhead more) ||
        kindAhead more == .punct .star &&
          among [.punct .colonEqual, .punct .comma] (kindAhead more.tail))) := by
  simp [opensAssignment, Look.holds, Look.name, Look.punct, among, kindAhead, beq_eq_decide]

theorem opensAssignment_of_item {parts : List Part} {next : TokenKind} {tokens : List Token}
    (item : (Form.inOrder [.name none, .exportMark]).Sentence False parts next)
    (follows : among [.punct .colonEqual, .punct .comma] (kindAhead tokens) = true) :
    opensAssignment.holds (tokensOf parts ++ tokens) = true := by
  obtain ⟨t, more, rfl, isName, marked | plain⟩ := Form.sentence_token_seq.mp item
  · obtain ⟨star, rfl, isStar⟩ := Form.sentence_token.mp marked
    have ahead : kindAhead (star :: tokens) = .punct .star := isStar
    change opensAssignment.holds (t :: star :: tokens) = true
    rw [holds_opensAssignment, List.tail_cons, follows, isName, ahead]
    rfl
  · obtain rfl : more = [] := plain
    change opensAssignment.holds (t :: tokens) = true
    rw [holds_opensAssignment, follows, isName]
    rfl

theorem opensAssignment_of_shortDecl {depth : Nat} {parts : List Part} {tokens : List Token}
    (valid : Valid host depth parts (kindAhead tokens))
    (sentence : Form.shortDecl.Sentence False parts (kindAhead tokens)) :
    opensAssignment.holds (tokensOf parts ++ tokens) = true := by
  obtain ⟨parts, rest, rfl, rest⟩ := Form.sentence_node_seq.mp sentence
  obtain ⟨assign, values, rfl, isAssign, -⟩ := Form.sentence_token_seq.mp rest
  obtain ⟨-, names, -⟩ := valid.head.inside
  simp only [tokensOf, Part.tokens, List.append_assoc, List.cons_append]
  cases names with
  | stop _ never => cases never
  | last item gap =>
      obtain rfl := gap
      rw [List.append_nil]
      exact opensAssignment_of_item item (by simp [kindAhead, isAssign, among])
  | more isComma item gap =>
      obtain rfl := gap
      simp only [List.nil_append, tokensOf_append, List.append_assoc]
      exact opensAssignment_of_item item (by simp [kindAhead, tokensOf, Part.tokens, isComma, among])

def callFollow : List TokenKind :=
  [.punct .leftParen, .punct .colonColon, .semicolon, .newline, .punct .rightBrace,
    .punct .rightParen, .endOfInput]

theorem primary_follow {depth : Nat} {parts : List Part} {tokens : List Token}
    (valid : Valid .primary depth parts (kindAhead tokens))
    (sentence : (production .primary).Sentence False parts (kindAhead tokens))
    (follow : kindAhead tokens ∈ callFollow) :
    ∃ t more, tokensOf parts ++ tokens = t :: more ∧ kindAhead more ∈ callFollow := by
  obtain ⟨part, rfl, -, symbol, mem, fits⟩ := sentence
  simp only [List.mem_cons, List.not_mem_nil, or_false] at mem
  obtain rfl | rfl := mem <;> obtain ⟨own, parts, rfl⟩ := Symbol.fits_node.mp fits <;>
    obtain ⟨-, sentence, -⟩ := valid.inside <;>
    simp only [tokensOf, Part.tokens, List.append_nil]
  · obtain ⟨family, sentence⟩ := sentence_builtinCall.mp sentence
    obtain ⟨t, more, eq, -, paren⟩ := holds_opensCall.mp (opensCall_of_sentence sentence tokens)
    exact ⟨t, more, eq, by simp [paren, callFollow]⟩
  · obtain qualified | plain := sentence
    · obtain ⟨t, more, rfl, -, rest⟩ := Form.sentence_token_seq.mp qualified
      obtain ⟨colons, more, rfl, isColons, -⟩ := Form.sentence_token_seq.mp rest
      exact ⟨t, _, rfl, by simp [kindAhead, tokensOf, Part.tokens, isColons, callFollow]⟩
    · obtain ⟨t, rfl, -⟩ := Form.sentence_token.mp plain
      exact ⟨t, tokens, rfl, follow⟩

theorem opensAssignment_of_call {depth : Nat} {parts : List Part} {tokens : List Token}
    (valid : Valid host depth parts (kindAhead tokens))
    (sentence : (Form.inOrder [.node none .callStmt, .ending]).Sentence False parts (kindAhead tokens)) :
    opensAssignment.holds (tokensOf parts ++ tokens) = false := by
  obtain ⟨parts, ending, rfl, ends⟩ := Form.sentence_node_seq.mp sentence
  have behind : kindAhead (tokensOf ending ++ tokens) ∈ callFollow := by
    rw [kindAhead_append]
    obtain ⟨rfl, -⟩ | ⟨-, first⟩ := valid.tail.opens ends
    · have closing := ends.2.2 rfl
      revert closing
      simp only [firstKind_nil, TokenKind.isClosing, Bool.or_eq_true, beq_iff_eq]
      rintro ((eq | eq) | eq) <;> simp [eq, callFollow]
    · have sub : Form.ending.first ⊆ callFollow := by decide
      exact sub first
  have inner := valid.head.inside
  rw [← kindAhead_append] at inner
  obtain ⟨inner, sentence, -⟩ := inner
  obtain ⟨parts, more, rfl, arguments⟩ := Form.sentence_node_seq.mp sentence
  have designator := inner.head.inside
  have follow : kindAhead (tokensOf more ++ (tokensOf ending ++ tokens)) ∈ callFollow := by
    rw [kindAhead_append]
    obtain ⟨rfl, -⟩ | ⟨-, first⟩ := inner.tail.opens arguments
    · exact behind
    · have sub : (Form.optional (.node (some .arguments) .arguments)).first ⊆ callFollow := by decide
      exact sub first
  rw [← kindAhead_append] at designator
  obtain ⟨t, others, eq, other⟩ := primary_follow designator.1 designator.2.1 follow
  simp only [tokensOf, Part.tokens, List.append_assoc]
  have clear : ∀ k ∈ callFollow, among [.punct .colonEqual, .punct .comma] k = false ∧
      k ≠ .punct .star := by
    decide
  rw [eq, holds_opensAssignment]
  simp [clear _ other]

theorem statement_cases {depth : Nat} {parts : List Part} {tokens : List Token}
    (valid : Valid host depth parts (kindAhead tokens))
    (sentence : Form.statement.Sentence False parts (kindAhead tokens)) :
    (∃ kind inner, .node kind ∈ Form.statements ∧ parts = [.node none kind true inner] ∧
      DeclOpening kind (tokensOf parts ++ tokens)) ∨
      (Form.inOrder [.node none .callStmt, .ending]).Sentence False parts (kindAhead tokens) ∧
        DeclOpening .callStmt (tokensOf parts ++ tokens) := by
  obtain ⟨part, rfl, named, symbol, mem, fits⟩ | call := sentence
  · obtain ⟨kind, listed, rfl⟩ := openingKinds_of_mem (List.mem_append_right _ mem)
    obtain ⟨own, inner, rfl⟩ := Symbol.fits_node.mp fits
    obtain rfl : own = none := named
    refine .inl ⟨kind, inner, mem, rfl, ?_⟩
    simpa [tokensOf, Part.tokens] using declOpening valid listed
  · refine .inr ⟨call, ?_⟩
    obtain ⟨inner, ending, rfl, -⟩ := Form.sentence_node_seq.mp call
    have head := valid.head
    rw [← kindAhead_append] at head
    simpa [tokensOf, Part.tokens] using declOpening head (by decide)

theorem imports_of_declOpening {kind : NodeKind} {tokens : List Token}
    (opening : DeclOpening kind tokens) : (Look.keyword .imports).holds tokens = false := by
  cases kind with
  | constDecl | varDecl | typeDecl | fnDecl | methodDecl => exact keyword_other opening (by decide)
  | block => exact keyword_of_kind (by simp [show kindAhead tokens = _ from opening])
  | shortVarDecl | declAssignment | callStmt => exact opening.2 _ (by decide)
  | _ => exact opening.elim

def statementWays : List (Look × Rule × Form) :=
  [(.keyword .const, constDecl, .node none .constDecl), (.keyword .var, varDecl, .node none .varDecl),
    (.keyword .type, typeDecl, .node none .typeDecl),
    (.keyword .fn, fnDecl, .one none [.node .methodDecl, .node .fnDecl]),
    (.keyword .imports, .fail (.misplacedImport .statement), .statement),
    (.punct .leftBrace, .block, .node none .block),
    (opensAssignment, shortDecl .declAssignment, .node none .declAssignment),
    (.name, .inOrder [callStmt, .terminator], .inOrder [.node none .callStmt, .ending])]

theorem statement_realizes (hosts : host ≠ .primary ∧ host ≠ .callStmt) :
    Realizes host true given none statement .statement (among []) := by
  refine .chooseOrFail statementWays (by decide) ?_ ?_
  · have sub : ∀ symbols, symbols ⊆ Form.statements → ∀ broken parts next,
        (Form.one none symbols).Sentence broken parts next →
          Form.statement.Sentence broken parts next := fun symbols sub broken parts next sentence =>
      .inl (Form.Sentence.widen sub broken parts next sentence)
    simp only [statementWays, List.forall_mem_cons, List.not_mem_nil, false_implies, implies_true,
      and_true]
    refine ⟨⟨constDecl_realizes fun _ holds => holds, sub _ (by decide)⟩,
      ⟨varDecl_realizes fun _ holds => holds, sub _ (by decide)⟩,
      ⟨typeDecl_realizes fun _ holds => holds, sub _ (by decide)⟩,
      ⟨fnDecl_realizes fun _ holds => holds, sub _ (by decide)⟩,
      ⟨.fail _ (by decide) ?_, fun _ _ _ sentence => sentence⟩,
      ⟨.avoiding (.nested .block hosts.1 hosts.2) (by decide), sub _ (by decide)⟩,
      ⟨shortDecl_realizes .declAssignment rfl, sub _ (by decide)⟩,
      ⟨.avoiding (.followed callStmt_realizes .terminator (by decide)) (by decide), fun _ _ _ =>
        .inr⟩⟩
    intro depth parts tokens holds _ valid sentence
    obtain ⟨_, _, -, -, opening⟩ | ⟨-, opening⟩ := statement_cases valid sentence
    all_goals simp [imports_of_declOpening opening] at holds
  · rintro depth parts tokens valid sentence
    have noPunct : ∀ p, kindAhead (tokensOf parts ++ tokens) = .name →
        (Look.punct p).holds (tokensOf parts ++ tokens) = false := by
      intro p isName
      simp [Look.punct, isName]
    simp only [statementWays, List.find?_cons]
    obtain ⟨kind, inner, mem, rfl, opening⟩ | ⟨call, isName, free⟩ := statement_cases valid sentence
    · have single : ∀ symbols, Symbol.node kind ∈ symbols →
          (Form.one none symbols).Sentence False [.node none kind true inner] (kindAhead tokens) :=
        fun symbols own => ⟨_, rfl, rfl, _, own, rfl, rfl⟩
      simp only [Form.statements, List.mem_cons, Symbol.node.injEq, List.not_mem_nil, or_false] at mem
      rcases mem with rfl | rfl | rfl | rfl | rfl | rfl | rfl
      -- Blocks and assignments have no keyword; the others are told by theirs.
      rotate_right 2
      · have isBrace : (Look.punct .leftBrace).holds _ = true := beq_iff_eq.mpr opening
        have noWord := fun k => @keyword_of_kind k (tokensOf [.node none .block true inner] ++ tokens)
          (by rw [show kindAhead _ = _ from opening]; decide)
        simp only [noWord, isBrace]
        exact ⟨_, rfl, single _ (by decide)⟩
      · obtain ⟨isName, free⟩ := opening
        have assigns : opensAssignment.holds (tokensOf [.node none .declAssignment true inner] ++
            tokens) = true := by
          simpa [tokensOf, Part.tokens] using
            opensAssignment_of_shortDecl valid.inside.1 valid.inside.2.1
        simp only [declarations_eq, List.forall_mem_cons] at free
        simp only [free, noPunct _ isName, assigns]
        exact ⟨_, rfl, single _ (by decide)⟩
      all_goals
        have others := fun j => @keyword_other _ j _ opening
        simp only [show (Look.keyword _).holds _ = true from opening, others, ne_eq, reduceCtorEq,
          not_false_eq_true]
        exact ⟨_, rfl, single _ (by decide)⟩
    · simp only [declarations_eq, List.forall_mem_cons] at free
      simp only [free, noPunct _ isName, opensAssignment_of_call valid call, Look.name,
        Look.holds_kind, isName]
      exact ⟨_, rfl, call⟩

theorem blockRule_realizes :
    Realizes host inside given label blockRule (Category.block.form label) Category.block.avoid :=
  (Realizes.node .block (.followed (.expect .leftBrace) (.followed
    (.items (.punct .rightBrace) .block (statement_realizes (by decide)) (by decide) (by decide)
      (by decide) rfl) (.expect .rightBrace) (by decide)) (by decide))).avoiding (by decide)

/-- What stands for a part of the grammar is realized by its rule. -/
theorem categoryRule_realizes (category : Category) (hosts : host ≠ .primary) :
    Realizes host inside given label (categoryRule category) (category.form label) category.avoid := by
  cases category with
  | type => exact typeRule_realizes hosts
  | expression => exact expressionRule_realizes
  | block => exact blockRule_realizes

/-! ## Whole programs -/

theorem imports_of_items {depth : Nat} {parts : List Part} {tokens : List Token}
    (valid : Valid host depth parts (kindAhead tokens)) (ends : kindAhead tokens = .endOfInput)
    (sentence : (Form.items .declaration).Sentence False parts (kindAhead tokens)) :
    (Look.keyword .imports).holds (tokensOf parts ++ tokens) = false := by
  cases sentence with
  | nil =>
      refine keyword_of_kind ?_
      rw [kindAhead_append, ends]
      decide
  | @cons first more _ item _ =>
      rw [tokensOf_append, List.append_assoc]
      have valid := valid.of_append_left
      rw [← kindAhead_append] at valid
      obtain ⟨part, rfl, -, symbol, mem, fits⟩ | ⟨left, right, rfl, whole, skipped | none⟩ := item
      · refine keyword_of_kind ?_
        have kind : kindAhead (tokensOf [part] ++ (tokensOf more ++ tokens)) ∈ symbol.first := by
          rw [kindAhead_append]
          exact (fits.first valid.begun.1).2 [] _
        simp only [List.mem_cons, List.not_mem_nil, or_false] at mem
        obtain rfl | rfl := mem <;> simp [List.mem_singleton.mp kind]
      · exact skipped.1.elim
      · obtain rfl : right = [] := none
        obtain (⟨never, -⟩ | ⟨part, rfl, named, symbol, mem, fits⟩) | ⟨never, -⟩ := whole
        · exact never.elim
        · obtain ⟨kind, listed, rfl⟩ := openingKinds_of_mem (List.mem_append_left _ mem)
          obtain ⟨own, inner, rfl⟩ := Symbol.fits_node.mp fits
          simpa [tokensOf, Part.tokens] using imports_of_declOpening (declOpening valid listed)
        · exact never.elim

theorem program_realizes :
    Realizes host inside given none program .program (fun k => k != .endOfInput) := by
  have items : ∀ {given}, Realizes host inside given none (.items .atEnd .topLevel declaration)
      (.items .declaration) (fun k => k != .endOfInput) :=
    (Realizes.items .endOfInput .topLevel declaration_realizes (by decide) (by decide)
      (by decide) rfl).avoiding (by decide)
  have body : Realizes host inside anywhere none
      (.seq (.optional (.keyword .imports) (.recovering .topLevel imports))
        (.items .atEnd .topLevel declaration))
      (.seq (.optional (.tried (.node none .imports))) (.items .declaration))
      (fun k => k != .endOfInput) := by
    refine .congr Rule.run_distribute (.branch
      (.restrict (.followed (.recovering .topLevel (imports_realizes fun _ holds => holds.2))
        items (by decide))
        ?_ (by decide) ?_) (.congr Rule.run_done (.restrict items ?_ (by decide) ?_)))
    · rintro broken parts next ⟨left, right, rfl, first, second⟩
      exact ⟨left, right, rfl, .inl first, second⟩
    -- The keyword in front makes an import, since no declaration begins with it.
    · rintro depth parts tokens ⟨-, holds⟩ clear valid ⟨left, right, rfl, first | none, second⟩
      · exact ⟨left, right, rfl, first, second⟩
      · obtain rfl : left = [] := none
        rw [List.nil_append] at holds valid
        rw [imports_of_items valid (by simpa using clear) second] at holds
        cases holds
    · intro broken parts next sentence
      exact ⟨[], parts, rfl, .inr rfl, sentence⟩
    · rintro depth parts tokens ⟨-, holds⟩ clear valid ⟨left, right, rfl, first | none, second⟩
      · obtain ⟨node, rest, rfl, whole | ⟨never, -⟩, -⟩ := first
        · obtain ⟨inner, rfl⟩ := Form.sentence_node.mp whole
          obtain ⟨t, more, rfl, word, -⟩ := Form.sentence_keyword_seq.mp valid.head.inside.2.1
          exact absurd (holds_keyword.mpr ⟨t, _, rfl, word⟩) (Bool.eq_false_iff.mp holds)
        · exact never.elim
      · obtain rfl : left = [] := none
        exact second
  exact (Realizes.followed .terminators body (by decide)).avoiding (by decide)

end UmkaSyntax.Grammar
