import UmkaSyntax.Proofs.Grammar.Derivation

/-!
Which rules read which forms. A rule realizes a form if it takes the tokens of its sentences and
builds their parts, decided by the tokens ahead; `Realizes` has one case for each way in which the
rules of the grammar do that. Every production is a case of it, and what follows for runs is proved
from these cases once.
-/

namespace UmkaSyntax
open UmkaSyntax.Part

/-! ## Tests of one token -/

namespace Look

def byKind : Look → Bool
  | always | kind _ => true
  | keyword _ | builtin _ | next _ => false
  | both a b | either a b => a.byKind && b.byKind
  | not look => look.byKind

def ofKind : Look → TokenKind → Bool
  | always, _ => true
  | kind k, ahead => ahead == k
  | both a b, ahead => a.ofKind ahead && b.ofKind ahead
  | either a b, ahead => a.ofKind ahead || b.ofKind ahead
  | not look, ahead => !look.ofKind ahead
  | keyword _, _ | builtin _, _ | next _, _ => false

theorem holds_of_byKind {look : Look} (byKind : look.byKind = true) (tokens : List Token) :
    look.holds tokens = look.ofKind (kindAhead tokens) := by
  induction look with
  | always => rfl
  | kind k => rfl
  | keyword | builtin | next => cases byKind
  | both a b iha ihb =>
      simp only [Look.byKind, Bool.and_eq_true] at byKind
      simp [holds, ofKind, iha byKind.1, ihb byKind.2]
  | either a b iha ihb =>
      simp only [Look.byKind, Bool.and_eq_true] at byKind
      simp [holds, ofKind, iha byKind.1, ihb byKind.2]
  | not look ih => simp [holds, ofKind, ih byKind]

@[simp] theorem holds_kind {k : TokenKind} {tokens : List Token} :
    (kind k).holds tokens = (kindAhead tokens == k) := rfl

end Look

theorem exists_token {tokens : List Token} {k : TokenKind} (ahead : kindAhead tokens = k)
    (token : k ≠ .endOfInput) : ∃ t more, tokens = t :: more ∧ t.kind = k := by
  cases tokens with
  | nil => exact absurd ahead.symm token
  | cons t more => exact ⟨t, more, rfl, ahead⟩

/-! ## Rules and forms -/

def anywhere (_ : List Token) : Prop := True

def among (kinds : List TokenKind) (k : TokenKind) : Bool := kinds.contains k

def Rule.HandsOver (given next : List Token → Prop) (rule : Rule) : Prop :=
  ∀ enter s t, given s.rest → rule.run enter s = .ok t → next t.rest

def Rule.Atomic (rule : Rule) : Prop :=
  ∀ enter s e t, rule.run enter s = .failed e t → t = s

theorem Rule.take_atomic : take.Atomic := by
  intro enter s e t run
  cases run

theorem Rule.name_atomic : name.Atomic := by
  intro enter s e t run
  simp only [Rule.run, Rule.name] at run
  split at run
  · cases run
  · exact (Outcome.failed.inj run).2.symm

def Category.avoid : Category → TokenKind → Bool
  | type => among [.punct .colon, .punct .colonColon]
  | expression => among [.punct .colonColon]
  | block => among []

def Symbol.isToken : Symbol → Bool
  | token _ | builtin _ => true
  | _ => false

/-- The rule realizes the form among the children of a node of the kind `host`, with the label on
its first part, where the tokens ahead are `given`, unless a token to `avoid` comes after it. Only
`inside` a node that was opened on the way may it enter another part of the grammar. -/
inductive Realizes : (host : NodeKind) → (inside : Bool) → (given : List Token → Prop) →
    (label : Option FieldName) → Rule → Form → (avoid : TokenKind → Bool) → Prop
  | done {host inside given} : Realizes host inside given none .done .empty (among [])
  | seq {host inside given next label A B F G a b} :
      Realizes host inside given label A F a → A.HandsOver given next →
      Realizes host inside next none B G b → F.joins G = true → (∀ k ∈ G.first, a k = false) →
      Realizes host inside given label (.seq A B) (.seq F G)
        (fun k => b k || G.vanishes k && a k)
  | congr {host inside given label A B F a} : (∀ enter s, A.run enter s = B.run enter s) →
      Realizes host inside given label B F a → Realizes host inside given label A F a
  | branch {host inside given label look A B F a} :
      Realizes host inside (fun tokens => given tokens ∧ look.holds tokens = true) label A F a →
      Realizes host inside (fun tokens => given tokens ∧ look.holds tokens = false) label B F a →
      Realizes host inside given label (.branch look A B) F a
  | weaken {host inside given next label A F a} : Realizes host inside given label A F a →
      (∀ tokens, next tokens → given tokens) → Realizes host inside next label A F a
  /-- The sentences of a wider form that the tokens ahead allow are those of the narrower. -/
  | restrict {host inside given label A F G a b} : Realizes host inside given label A F a →
      (∀ broken parts next, F.Sentence broken parts next → G.Sentence broken parts next) →
      (∀ k ∈ anyKind, a k = true → b k = true) →
      (∀ depth parts tokens, given (tokensOf parts ++ tokens) → b (kindAhead tokens) = false →
        Valid host depth parts (kindAhead tokens) → G.Sentence False parts (kindAhead tokens) →
          F.Sentence False parts (kindAhead tokens)) →
      Realizes host inside given label A G b
  | fail {host inside given label F a} (issue : SyntaxIssue) : F.grounded = true →
      (∀ depth parts tokens, given (tokensOf parts ++ tokens) → a (kindAhead tokens) = false →
        Valid host depth parts (kindAhead tokens) → ¬ F.Sentence False parts (kindAhead tokens)) →
      Realizes host inside given label (.fail issue) F a
  | announce {host inside given label A F a} : Realizes host inside given label A F a →
      Realizes host inside given label (.seq .announce A) F a
  | take {host inside given label symbols} :
      (∀ tokens, given tokens → ∃ t more, tokens = t :: more ∧
        ∃ symbol ∈ symbols, symbol.Fits (.token label t)) →
      (∀ symbol ∈ symbols, symbol.isToken = true) →
      Realizes host inside given label .take (.one label symbols) (among [])
  | takeKeyword {host inside given label} (k : Keyword) :
      (∀ tokens, given tokens → ∃ t more, tokens = t :: more ∧
        (Symbol.keyword k).Fits (.keyword label t)) →
      Realizes host inside given label .takeKeyword (.one label [.keyword k]) (among [])
  | takeWhile {host inside given look} (kinds : List TokenKind) :
      (∀ tokens, look.holds tokens = kinds.contains (kindAhead tokens)) → .endOfInput ∉ kinds →
      Realizes host inside given none (.takeWhile look) (.run kinds) (among [])
  | terminator {host inside given} :
      Realizes host inside given none Rule.terminator .ending (among [])
  | literal {host inside given label} (kind : NodeKind) :
      (∀ tokens, given tokens → ∃ t more, tokens = t :: more ∧ kind.splits t.kind = true) →
      Realizes host inside given label (.literal kind kind.flavor) (.one label [.literal kind])
        (among [])
  | label {host inside given A symbols a} (field : FieldName)
      (atomic : A.Atomic) :
      Realizes host inside given none A (.one none symbols) a →
      Realizes host inside given none (.seq A (.label field)) (.one (some field) symbols) a
  | labelNext {host inside given A F a} (field : FieldName) :
      Realizes host inside given (some field) A F a →
      Realizes host inside given none (.seq (.labelNext field) A) F a
  | node {host inside given label body a} (kind : NodeKind) :
      Realizes kind true given none body (production kind) a →
      Realizes host inside given label (.node kind body) (.one label [.node kind]) a
  | nested {host given label} (category : Category) : host ≠ .primary → host ≠ .callStmt →
      Realizes host true given label (.nested category) (category.form label) category.avoid
  | separated {host inside given go ends A B C F G H a b c} :
      (∀ tokens, go.holds tokens = !ends.any (· (kindAhead tokens))) →
      Realizes host inside anywhere none A F a → Realizes host inside anywhere none B G b →
      Realizes host inside anywhere none C H c → F.nullable = false →
      F.joins G = true → H.grounded = true → H.joins (.list ends F G H) = true →
      (∀ k ∈ G.first ++ [.punct .comma], a k = false) → b (.punct .comma) = false →
      (∀ k ∈ F.first, c k = false ∧ ends.any (· k) = false) →
      Realizes host inside given none (.separated go A B C) (.list ends F G H)
        (fun k => k == .punct .comma || a k || b k || c k)
  | recovering {host inside given A F a} (sync : SyncSet) : Realizes host inside given none A F a →
      Realizes host inside given none (.recovering sync A) (.tried F) a
  | items {host inside given A F a} (stop : TokenKind) (sync : SyncSet) :
      Realizes host inside anywhere none A F a → F.nullable = false →
      (∀ k ∈ F.first ++ [.semicolon, .newline, stop, .endOfInput], a k = false) →
      (∀ k ∈ F.first, k ∉ [.semicolon, .newline, stop, .endOfInput]) → stop.isTerminator = false →
      Realizes host inside given none (.items (.kind stop) sync A) (.items F)
        (fun k => k != stop && k != .endOfInput)
  | misplaced {host inside given a} :
      Realizes .error true given none Grammar.imports (.node none .imports) a →
      Realizes host inside given none Grammar.misplacedImport .skipped (among [])
  /-- Only behind its first item is it known which kind of node a brace has opened. -/
  | brace {host inside given label} :
      (∀ tokens, given tokens → kindAhead tokens = .punct .leftBrace) →
      Realizes .mapEntry true anywhere none Grammar.mapValue
        (.inOrder [.punct .colon, .terminators, .expression (some .value)])
        (among [.punct .colonColon]) →
      Realizes .mapLiteral true anywhere none
        (.inOrder [Grammar.moreItems Grammar.mapEntry, .terminators, .expect .rightBrace])
        (.inOrder [.moreItems (.node none .mapEntry), .terminators, .punct .rightBrace]) (among []) →
      Realizes .arrayLiteral true anywhere none
        (.inOrder [Grammar.moreItems .expression, .terminators, .expect .rightBrace])
        (.inOrder [.moreItems (.expression none), .terminators, .punct .rightBrace]) (among []) →
      Realizes host inside given label Grammar.braceLiteral
        (.one label [.node .arrayLiteral, .node .mapLiteral]) (among [])

/-! ## Sentences that begin with one part -/

namespace Symbol

variable {part : Part}

theorem fits_token {k : TokenKind} :
    (token k).Fits part ↔ ∃ label t, part = .token label t ∧ t.kind = k := by
  cases part <;> simp [Fits]

theorem fits_keyword {k : Keyword} : (keyword k).Fits part ↔
    ∃ label t, part = .keyword label t ∧ t.kind = .name ∧ Keyword.ofSpelling? t.text = some k := by
  cases part <;> simp [Fits]

theorem fits_node {k : NodeKind} :
    (node k).Fits part ↔ ∃ label parts, part = .node label k true parts := by
  cases part with
  | node label kind whole parts =>
      simp only [Fits, Part.node.injEq]
      constructor
      · rintro ⟨rfl, rfl⟩
        exact ⟨label, parts, rfl, rfl, rfl, rfl⟩
      · rintro ⟨_, _, -, rfl, rfl, -⟩
        exact ⟨rfl, rfl⟩
  | token | keyword | literal => simp [Fits]

theorem Fits.named {symbol : Symbol} (fits : symbol.Fits part) (field : FieldName) :
    symbol.Fits (part.named field) := by
  cases symbol <;> cases part <;> exact fits

end Symbol

namespace Form

variable {broken : Prop} {label : Option FieldName} {symbols : List Symbol} {form : Form}
  {parts : List Part} {next : TokenKind}

theorem Sentence.widen {wider : List Symbol} (sub : symbols ⊆ wider) (broken : Prop)
    (parts : List Part) (next : TokenKind)
    (sentence : (one label symbols).Sentence broken parts next) :
    (one label wider).Sentence broken parts next := by
  obtain ⟨part, rfl, named, symbol, mem, fits⟩ := sentence
  exact ⟨part, rfl, named, symbol, sub mem, fits⟩

theorem sentence_one_seq : (seq (one label symbols) form).Sentence broken parts next ↔
    ∃ part more, parts = part :: more ∧ part.label = label ∧
      (∃ symbol ∈ symbols, symbol.Fits part) ∧ form.Sentence broken more next := by
  constructor
  · rintro ⟨_, more, rfl, ⟨part, rfl, named, fits⟩, rest⟩
    exact ⟨part, more, rfl, named, fits, rest⟩
  · rintro ⟨part, more, rfl, named, fits, rest⟩
    exact ⟨[part], more, rfl, ⟨part, rfl, named, fits⟩, rest⟩

theorem sentence_token {k : TokenKind} : (one label [.token k]).Sentence broken parts next ↔
    ∃ t, parts = [.token label t] ∧ t.kind = k := by
  constructor
  · rintro ⟨part, rfl, rfl, symbol, mem, fits⟩
    obtain rfl := List.mem_singleton.mp mem
    obtain ⟨_, t, rfl, kind⟩ := Symbol.fits_token.mp fits
    exact ⟨t, rfl, kind⟩
  · rintro ⟨t, rfl, kind⟩
    exact ⟨_, rfl, rfl, _, List.mem_singleton_self _, kind⟩

theorem sentence_token_seq {k : TokenKind} :
    (seq (one label [.token k]) form).Sentence broken parts next ↔
      ∃ t more, parts = .token label t :: more ∧ t.kind = k ∧ form.Sentence broken more next := by
  constructor
  · rintro ⟨_, more, rfl, first, rest⟩
    obtain ⟨t, rfl, kind⟩ := sentence_token.mp first
    exact ⟨t, more, rfl, kind, rest⟩
  · rintro ⟨t, more, rfl, kind, rest⟩
    exact ⟨_, more, rfl, sentence_token.mpr ⟨t, rfl, kind⟩, rest⟩

theorem sentence_keyword_seq {k : Keyword} :
    (seq (one label [.keyword k]) form).Sentence broken parts next ↔
      ∃ t more, parts = .keyword label t :: more ∧
        (t.kind = .name ∧ Keyword.ofSpelling? t.text = some k) ∧ form.Sentence broken more next := by
  rw [sentence_one_seq]
  constructor
  · rintro ⟨part, more, rfl, rfl, ⟨symbol, mem, fits⟩, rest⟩
    obtain rfl := List.mem_singleton.mp mem
    obtain ⟨_, t, rfl, word⟩ := Symbol.fits_keyword.mp fits
    exact ⟨t, more, rfl, word, rest⟩
  · rintro ⟨t, more, rfl, word, rest⟩
    exact ⟨_, more, rfl, rfl, ⟨_, List.mem_singleton_self _, word⟩, rest⟩

theorem sentence_node {k : NodeKind} : (one label [.node k]).Sentence broken parts next ↔
    ∃ inner, parts = [.node label k true inner] := by
  constructor
  · rintro ⟨part, rfl, rfl, symbol, mem, fits⟩
    obtain rfl := List.mem_singleton.mp mem
    obtain ⟨_, inner, rfl⟩ := Symbol.fits_node.mp fits
    exact ⟨inner, rfl⟩
  · rintro ⟨inner, rfl⟩
    exact ⟨_, rfl, rfl, _, List.mem_singleton_self _, rfl, rfl⟩

theorem sentence_node_seq {k : NodeKind} :
    (seq (one label [.node k]) form).Sentence broken parts next ↔
      ∃ inner more, parts = .node label k true inner :: more ∧ form.Sentence broken more next := by
  constructor
  · rintro ⟨_, more, rfl, first, rest⟩
    obtain ⟨inner, rfl⟩ := sentence_node.mp first
    exact ⟨inner, more, rfl, rest⟩
  · rintro ⟨inner, more, rfl, rest⟩
    exact ⟨_, more, rfl, sentence_node.mpr ⟨inner, rfl⟩, rest⟩

end Form

/-! ## Rules in other words -/

theorem Outcome.andThen_assoc (outcome : Outcome) (f g : State → Outcome) :
    (outcome.andThen f).andThen g = outcome.andThen fun s => (f s).andThen g := by
  cases outcome <;> rfl

namespace Rule

variable {A B C : Rule} {look : Look}

theorem run_assoc (enter : Category → State → Outcome) (s : State) :
    (seq A (seq B C)).run enter s = (seq (seq A B) C).run enter s :=
  (Outcome.andThen_assoc _ _ _).symm

theorem run_distribute (enter : Category → State → Outcome) (s : State) :
    (seq (branch look A B) C).run enter s = (branch look (seq A C) (seq B C)).run enter s := by
  simp only [run]
  split <;> rfl

theorem run_done (enter : Category → State → Outcome) (s : State) :
    (seq done A).run enter s = A.run enter s := rfl

theorem run_seq_congr {enter : Category → State → Outcome}
    (same : ∀ s, B.run enter s = C.run enter s) (s : State) :
    (seq A B).run enter s = (seq A C).run enter s := by
  simp only [run]
  cases A.run enter s with
  | ok t => exact same t
  | failed e t => rfl

theorem run_name_branch (enter : Category → State → Outcome) (s : State) :
    (seq name (branch look A B)).run enter s =
      (branch (.next look) (seq name A) (seq name B)).run enter s := by
  simp only [run, name, Look.holds]
  cases rest : s.rest with
  | nil =>
      have noName : Look.name.holds [] = false := rfl
      simp only [noName, Bool.false_eq_true, if_false, Outcome.andThen]
      split <;> rfl
  | cons t more =>
      by_cases isName : Look.name.holds (t :: more) = true
      · simp only [isName, if_true, Outcome.andThen, State.take, State.takeAs, rest, List.tail_cons]
      · simp [isName, Outcome.andThen]

end Rule

/-! ### Braces -/

namespace Grammar

def braceOpened (s : State) : State :=
  (s.onBuilder (Builder.startNode .arrayLiteral s.offset)).take.takeWhile .terminator

def braceKeyed (s : State) : State :=
  ((s.onBuilder (Builder.mapTop fun n => { n with kind := .mapLiteral })).onBuilder
    (Builder.startAroundLast .mapEntry s.offset)).onBuilder
      (Builder.mapTop (OpenNode.nameLast .key))

def braceTail (item : Rule) : Rule := .inOrder [moreItems item, .terminators, .expect .rightBrace]

theorem run_braceLiteral (enter : Category → State → Outcome) (s : State) :
    braceLiteral.run enter s =
      (if (Look.punct .rightBrace).holds (braceOpened s).rest then
        (Rule.expect .rightBrace).run enter (braceOpened s)
      else (enter .expression (braceOpened s)).andThen fun t =>
        if (Look.punct .colon).holds t.rest then
          ((mapValue.run enter (braceKeyed t)).andThen fun u =>
            .ok (u.onBuilder Builder.close)).andThen ((braceTail mapEntry).run enter)
        else (braceTail .expression).run enter t).andThen fun u => .ok (u.onBuilder Builder.close) := by
  change ((if (!(Look.punct .rightBrace).holds (braceOpened s).rest) = true then
      braceItems.run enter (braceOpened s) else .ok (braceOpened s)).andThen
        ((Rule.expect .rightBrace).run enter)).andThen _ = _
  congr 1
  cases (Look.punct .rightBrace).holds (braceOpened s).rest with
  | true => rfl
  | false =>
      simp only [Bool.not_false, if_true, Bool.false_eq_true, if_false, braceItems, Rule.inOrder,
        Rule.expression, Rule.run]
      rw [Outcome.andThen_assoc]
      refine congrArg _ (funext fun t => ?_)
      simp only [braceTail, Rule.inOrder, Rule.run]
      split
      · simp only [Outcome.andThen_assoc]
        rfl
      · simp only [Outcome.andThen_assoc]

end Grammar

/-! ## Shorter ways to the same relation -/

namespace Realizes

variable {host : NodeKind} {inside : Bool} {given : List Token → Prop} {label : Option FieldName}
  {look : Look} {A B : Rule} {F G : Form} {a b : TokenKind → Bool} {symbols : List Symbol}

theorem followed (first : Realizes host inside given label A F a)
    (second : Realizes host inside anywhere none B G b)
    (fits : F.joins G = true ∧ ∀ k ∈ G.first, a k = false) :
    Realizes host inside given label (.seq A B) (.seq F G) (fun k => b k || G.vanishes k && a k) :=
  .seq first (fun _ _ _ _ _ => trivial) second fits.1 fits.2

theorem avoiding (realizes : Realizes host inside given label A F a)
    (less : ∀ k ∈ anyKind, a k = true → b k = true) :
    Realizes host inside given label A F b :=
  .restrict realizes (fun _ _ _ sentence => sentence) less fun _ _ _ _ _ _ sentence => sentence

theorem taking (takes : A = .take ∨ A = .takeKeyword)
    (first : Realizes host inside given label A (.one label symbols) a)
    (second : Realizes host inside (fun tokens => ∃ t, given (t :: tokens)) none B G b)
    (ahead : ∀ tokens, given tokens → tokens ≠ [])
    (fits : (Form.one label symbols).joins G = true ∧ ∀ k ∈ G.first, a k = false) :
    Realizes host inside given label (.seq A B) (.seq (.one label symbols) G)
      (fun k => b k || G.vanishes k && a k) := by
  refine .seq first (fun enter s t holds run => ?_) second fits.1 fits.2
  obtain ⟨u, more, rest⟩ := List.exists_cons_of_ne_nil (ahead _ holds)
  obtain rfl | rfl := takes
  · simp only [Rule.run, State.take, State.takeAs, rest, Outcome.ok.injEq] at run
    subst run
    exact ⟨u, rest ▸ holds⟩
  · simp only [Rule.run, State.takeAs, rest, Outcome.ok.injEq] at run
    subst run
    exact ⟨u, rest ▸ holds⟩

theorem named (field : FieldName) (first : Realizes host inside given none A (.one none symbols) a)
    (second : Realizes host inside anywhere none B G b) (atomic : A.Atomic)
    (fits : (Form.one (some field) symbols).joins G = true ∧ ∀ k ∈ G.first, a k = false) :
    Realizes host inside given none (.seq A (.seq (.label field) B))
      (.seq (.one (some field) symbols) G) (fun k => b k || G.vanishes k && a k) :=
  .congr Rule.run_assoc ((Realizes.label field atomic first).followed second fits)

theorem takeKind {k : TokenKind} (ahead : ∀ tokens, given tokens → kindAhead tokens = k)
    (token : k ≠ .endOfInput) :
    Realizes host inside given label .take (.one label [.token k]) (among []) := by
  refine .take (fun tokens holds => ?_) (by simp [Symbol.isToken])
  obtain ⟨t, more, rfl, kind⟩ := exists_token (ahead tokens holds) token
  exact ⟨t, more, rfl, .token k, List.mem_singleton_self _, kind⟩

theorem token (k : TokenKind) (issue : SyntaxIssue) (isToken : k ≠ .endOfInput) :
    Realizes host inside given label (.branch (.kind k) .take (.fail issue)) (.one label [.token k])
      (among []) := by
  refine .branch (.takeKind (fun tokens holds => by simpa using holds.2) isToken)
    (.fail issue rfl fun depth parts tokens holds _ _ sentence => ?_)
  obtain ⟨t, rfl, rfl⟩ := Form.sentence_token.mp sentence
  simp [tokensOf, Part.tokens, kindAhead] at holds

theorem expect (p : Punct) : Realizes host inside given none (.expect p) (.punct p) (among []) :=
  .token (.punct p) _ (by simp)

theorem name : Realizes host inside given none .name (.name none) (among []) :=
  .token .name _ (by decide)

theorem terminators : Realizes host inside given none .terminators .terminators (among []) := by
  refine .takeWhile _ (fun tokens => ?_) (by decide)
  change (kindAhead tokens == .semicolon || kindAhead tokens == .newline) = _
  cases kindAhead tokens <;> rfl

theorem newlines : Realizes host inside given none .newlines .newlines (among []) := by
  refine .takeWhile _ (fun tokens => ?_) (by decide)
  change (kindAhead tokens == .newline) = _
  cases kindAhead tokens <;> rfl

theorem optional
    (realizes : Realizes host inside (fun tokens => given tokens ∧ look.holds tokens = true) none
      A F a)
    (opens : look.byKind = true ∧ (∀ k ∈ F.first, look.ofKind k = true) ∧ F.nullable = false) :
    Realizes host inside given none (.optional look A) (.optional F)
      (fun k => look.ofKind k || a k) := by
  obtain ⟨byKind, first, solid⟩ := opens
  apply Realizes.branch
  · refine .restrict realizes (fun _ _ _ => .inl) (by simp +contextual) ?_
    rintro depth parts tokens ⟨-, holds⟩ clear - (sentence | none)
    · exact sentence
    · obtain rfl : parts = [] := none
      rw [Look.holds_of_byKind byKind] at holds
      simp only [Bool.or_eq_false_iff] at clear
      exact absurd holds (by simpa using clear.1)
  · refine .restrict .done (fun _ _ _ => .inr) (by simp [among]) ?_
    rintro depth parts tokens ⟨-, holds⟩ clear valid (sentence | none)
    · obtain ⟨-, nullable⟩ | ⟨-, mem⟩ := valid.opens sentence
      · simp [solid] at nullable
      · rw [Look.holds_of_byKind byKind, kindAhead_append, first _ mem] at holds
        cases holds
    · exact none

theorem fork {c : TokenKind → Bool}
    (yes : Realizes host inside (fun tokens => given tokens ∧ look.holds tokens = true) label A F a)
    (no : Realizes host inside (fun tokens => given tokens ∧ look.holds tokens = false) label B G b)
    (left : ∀ depth parts tokens, Valid host depth parts (kindAhead tokens) →
      F.Sentence False parts (kindAhead tokens) → look.holds (tokensOf parts ++ tokens) = true)
    (right : ∀ depth parts tokens, c (kindAhead tokens) = false →
      Valid host depth parts (kindAhead tokens) → G.Sentence False parts (kindAhead tokens) →
        look.holds (tokensOf parts ++ tokens) = false)
    (less : ∀ k ∈ anyKind, (a k || b k) = true → c k = true) :
    Realizes host inside given label (.branch look A B) (.alt F G) c := by
  apply Realizes.branch
  · refine .restrict yes (fun _ _ _ => .inl) (fun k mem h => less k mem (by simp [h])) ?_
    rintro depth parts tokens ⟨-, holds⟩ clear valid (sentence | sentence)
    · exact sentence
    · simp [right depth parts tokens clear valid sentence] at holds
  · refine .restrict no (fun _ _ _ => .inr) (fun k mem h => less k mem (by simp [h])) ?_
    rintro depth parts tokens ⟨-, holds⟩ - valid (sentence | sentence)
    · simp [left depth parts tokens valid sentence] at holds
    · exact sentence

theorem choice
    (yes : Realizes host inside (fun tokens => given tokens ∧ look.holds tokens = true) label A F a)
    (no : Realizes host inside (fun tokens => given tokens ∧ look.holds tokens = false) label B G b)
    (apart : look.byKind = true ∧ ((∀ k ∈ F.first, look.ofKind k = true) ∧
      ∀ k ∈ G.first, look.ofKind k = false) ∧ F.nullable = false ∧ G.nullable = false) :
    Realizes host inside given label (.branch look A B) (.alt F G) (fun k => a k || b k) := by
  obtain ⟨byKind, firsts, solid⟩ := apart
  refine .fork yes no (fun depth parts tokens valid sentence => ?_)
    (fun depth parts tokens _ valid sentence => ?_) fun _ _ h => h
  · obtain ⟨-, nullable⟩ | ⟨-, mem⟩ := valid.opens sentence
    · simp [solid.1] at nullable
    · rw [Look.holds_of_byKind byKind, kindAhead_append, firsts.1 _ mem]
  · obtain ⟨-, nullable⟩ | ⟨-, mem⟩ := valid.opens sentence
    · simp [solid.2] at nullable
    · rw [Look.holds_of_byKind byKind, kindAhead_append, firsts.2 _ mem]

theorem choose {otherwise : Rule} (alternatives : List (Look × Rule × Form))
    (each : ∀ way ∈ alternatives,
      Realizes host inside (fun tokens => way.1.holds tokens = true) label way.2.1 way.2.2 a ∧
        ∀ broken parts next, way.2.2.Sentence broken parts next → F.Sentence broken parts next)
    (picks : ∀ depth parts tokens, given (tokensOf parts ++ tokens) → a (kindAhead tokens) = false →
      Valid host depth parts (kindAhead tokens) → F.Sentence False parts (kindAhead tokens) →
        ∀ way, alternatives.find? (·.1.holds (tokensOf parts ++ tokens)) = some way →
          way.2.2.Sentence False parts (kindAhead tokens))
    (last : Realizes host inside
      (fun tokens => given tokens ∧ alternatives.find? (·.1.holds tokens) = none) label otherwise F a) :
    Realizes host inside given label
      (.choose (alternatives.map fun way => (way.1, way.2.1)) otherwise) F a := by
  induction alternatives generalizing given with
  | nil => exact .weaken last fun tokens holds => ⟨holds, rfl⟩
  | cons way more ih =>
      have own := each way List.mem_cons_self
      refine .branch (.restrict (.weaken own.1 fun _ holds => holds.2) own.2 (fun _ _ h => h) ?_)
        (ih (fun other mem => each other (List.mem_cons_of_mem _ mem)) ?_ ?_)
      · rintro depth parts tokens ⟨holds, test⟩ clear valid sentence
        exact picks depth parts tokens holds clear valid sentence way (by simp [test])
      · rintro depth parts tokens ⟨holds, test⟩ clear valid sentence other found
        exact picks depth parts tokens holds clear valid sentence other (by simpa [test] using found)
      · exact .weaken last fun tokens ⟨⟨holds, test⟩, others⟩ =>
          ⟨holds, by simpa [test] using others⟩

theorem chooseOrFail {issue : SyntaxIssue} (alternatives : List (Look × Rule × Form))
    (grounded : F.grounded = true)
    (each : ∀ way ∈ alternatives,
      Realizes host inside (fun tokens => way.1.holds tokens = true) label way.2.1 way.2.2 a ∧
        ∀ broken parts next, way.2.2.Sentence broken parts next → F.Sentence broken parts next)
    (finds : ∀ depth parts tokens, Valid host depth parts (kindAhead tokens) →
      F.Sentence False parts (kindAhead tokens) → ∃ form,
        (alternatives.find? (·.1.holds (tokensOf parts ++ tokens))).map (·.2.2) = some form ∧
          form.Sentence False parts (kindAhead tokens)) :
    Realizes host inside given label
      (.choose (alternatives.map fun way => (way.1, way.2.1)) (.fail issue)) F a := by
  refine .choose alternatives each ?_ (.fail issue grounded ?_)
  · intro depth parts tokens _ _ valid sentence way found
    obtain ⟨form, eq, sentence⟩ := finds depth parts tokens valid sentence
    obtain rfl : way.2.2 = form := by simpa [found] using eq
    exact sentence
  · rintro depth parts tokens ⟨-, missing⟩ - valid sentence
    obtain ⟨form, eq, -⟩ := finds depth parts tokens valid sentence
    simp [missing] at eq

theorem merge {others : List Symbol}
    (realizes : Realizes host inside given label A (.alt (.one label symbols) (.one label others)) a) :
    Realizes host inside given label A (.one label (symbols ++ others)) a := by
  refine .restrict realizes ?_ (fun _ _ h => h) ?_
  · rintro broken parts next (sentence | sentence)
    · exact Form.Sentence.widen (by simp) broken parts next sentence
    · exact Form.Sentence.widen (by simp) broken parts next sentence
  · rintro depth parts tokens - - - ⟨part, rfl, named, symbol, mem, fits⟩
    obtain mem | mem := List.mem_append.mp mem
    · exact .inl ⟨part, rfl, named, symbol, mem, fits⟩
    · exact .inr ⟨part, rfl, named, symbol, mem, fits⟩

theorem listed {go : Look} {C : Rule} {H : Form} {c : TokenKind → Bool} (ends : TokenKind → Bool)
    (item : Realizes host inside anywhere none A F a)
    (before : Realizes host inside anywhere none B G b)
    (after : Realizes host inside anywhere none C H c)
    (goes : ∀ tokens, go.holds tokens = !ends (kindAhead tokens))
    (fits : F.nullable = false ∧
      (F.joins G = true ∧ H.grounded = true ∧ H.joins (.list (some ends) F G H) = true) ∧
      (∀ k ∈ G.first ++ [.punct .comma], a k = false) ∧ b (.punct .comma) = false ∧
        ∀ k ∈ F.first, c k = false ∧ ends k = false) :
    Realizes host inside given none (.separated go A B C) (.list (some ends) F G H)
      (fun k => k == .punct .comma || a k || b k || c k) := by
  obtain ⟨solid, ⟨joins, grounded, again⟩, clear, comma, goesOn⟩ := fits
  exact .separated (by simpa using goes) item before after solid joins grounded again clear comma
    (by simpa using goesOn)

theorem commaList (item : Realizes host inside anywhere none A F a)
    (fits : F.nullable = false ∧
      (F.joins .empty = true ∧ Form.empty.joins (.list none F .empty .empty) = true) ∧
        a (.punct .comma) = false) :
    Realizes host inside given none (.commaList A) (.commaList F)
      (fun k => k == .punct .comma || a k) := by
  obtain ⟨solid, joins, clear⟩ := fits
  have listed : Realizes host inside given none (.separated .always A .done .done)
      (.list none F .empty .empty) _ :=
    .separated (fun _ => rfl) item .done .done solid joins.1 rfl joins.2
      (by simpa [Form.first] using clear) rfl (by simp [among])
  exact listed.avoiding (by simp [among])

end Realizes

end UmkaSyntax
