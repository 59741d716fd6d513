import UmkaSyntax.Proofs.Grammar.Productions
import UmkaSyntax.Proofs.Parsing.Parts

/-!
The trees of a parse have the shapes of the grammar. Every rule that succeeds leaves a sentence of
its form, and every rule that fails the beginning of one. Where no syntax error is recorded the
whole tree is a derivation; where errors are, it is broken only in the ways that forms allow.
-/

namespace UmkaSyntax
open UmkaSyntax.Part

/-! ## Parts with tokens -/

mutual

theorem Part.Licensed.tokens_ne_nil {broken : Prop} : ∀ {depth : Nat} {part : Part} {next : TokenKind},
    Licensed (Shape broken) depth part next → part.tokens ≠ []
  | _, .node _ _ _ _, _, ⟨⟨filled, _⟩, inner⟩ => by
      rw [Part.tokens]
      exact Part.LicensedAll.tokensOf_ne_nil inner filled
  | _, .token _ _, _, _ | _, .keyword _ _, _, _ | _, .literal _ _ _, _, _ => by simp [Part.tokens]

theorem Part.LicensedAll.tokensOf_ne_nil {broken : Prop} : ∀ {depth : Nat} {parts : List Part} {next : TokenKind},
    LicensedAll (Shape broken) depth parts next → parts ≠ [] → tokensOf parts ≠ []
  | _, [], _, _, filled => absurd rfl filled
  | _, part :: more, _, ⟨first, _⟩, _ => by
      intro none
      exact Part.Licensed.tokens_ne_nil first (List.append_eq_nil_iff.mp none).1

end

/-! ## What a run leaves -/

namespace State

def Faulty (s : State) : Prop := ∃ e, .syntactic e ∈ s.errors.toList

theorem Faulty.mono {s t : State} (faulty : s.Faulty) (steps : Steps s t) : t.Faulty := by
  obtain ⟨e, mem⟩ := faulty
  exact ⟨e, steps.errors.subset mem⟩

def Proper (s : State) : Prop := ∀ t ∈ s.rest, t.kind ≠ .endOfInput

structure Builds (broken : Prop) (s t : State) (parts : List Part) : Prop extends Grows s t parts where
  licensed : ∀ depth, LicensedAll (Shape broken) depth parts (kindAhead t.rest)

variable {broken : Prop} {s t u : State} {parts more : List Part}

theorem Grows.proper (grows : s.Grows t parts) (proper : s.Proper) : t.Proper := by
  intro token mem
  exact proper token (by rw [grows.rest]; exact List.mem_append_right _ mem)

theorem Builds.refl (pending : s.builder.top.pending = none) : s.Builds broken s [] :=
  ⟨.refl pending, fun _ => trivial⟩

theorem Builds.trans (first : s.Builds broken t parts) (second : t.Builds broken u more) :
    s.Builds broken u (parts ++ more) := by
  refine ⟨first.toGrows.trans second.toGrows, fun depth => licensedAll_append.mpr ⟨?_, ?_⟩⟩
  · rw [← second.kindAhead_eq]
    exact first.licensed depth
  · exact second.licensed depth

theorem Builds.record (builds : s.Builds broken t parts) (e : SyntaxError) :
    s.Builds broken (t.record (.syntactic e)) parts :=
  ⟨⟨builds.rest, builds.endOfInput, (lexicalErrors_record e t).trans builds.lexical, builds.builder⟩,
    builds.licensed⟩

theorem Builds.tokensOf_ne_nil (builds : s.Builds broken t parts) (filled : parts ≠ []) :
    tokensOf parts ≠ [] :=
  (builds.licensed 0).tokensOf_ne_nil filled

end State

namespace Outcome

/-- A success leaves a sentence of the form, and a failure the beginning of one. -/
def Reads (broken : Prop) (F : Form) (s : State) (outcome : Outcome) : Prop :=
  s.Proper → match outcome with
    | ok t => (t.Faulty → broken) →
        ∃ parts, s.Builds broken t parts ∧ F.Sentence broken parts (kindAhead t.rest)
    | failed _ t => broken →
        ∃ parts, s.Builds broken (t.closedTo s.depth) parts ∧ (F.Sentence broken).Unfinished parts

variable {broken : Prop} {F G H : Form} {s t : State} {outcome : Outcome} {next : State → Outcome}

theorem Reads.of_builds {parts : List Part} (builds : s.Builds broken t parts)
    (sentence : F.Sentence broken parts (kindAhead t.rest)) : (ok t).Reads broken F s :=
  fun _ _ => ⟨parts, builds, sentence⟩

theorem Reads.transfer (reads : outcome.Reads broken F t) (proper : s.Proper → t.Proper)
    (depth : t.depth = s.depth)
    (builds : ∀ {u parts}, t.Builds broken u parts → s.Builds broken u parts)
    (weaker : ∀ parts next, F.Sentence broken parts next → G.Sentence broken parts next) :
    outcome.Reads broken G s := by
  intro isProper
  have reads := reads (proper isProper)
  cases outcome with
  | ok u =>
      intro clean
      obtain ⟨parts, built, sentence⟩ := reads clean
      exact ⟨parts, builds built, weaker _ _ sentence⟩
  | failed e u =>
      intro hb
      obtain ⟨parts, built, unfinished⟩ := reads hb
      rw [depth] at built
      exact ⟨parts, builds built, unfinished.mono fun parts next sentence =>
        ⟨next, weaker parts next sentence⟩⟩

theorem Reads.mono (reads : outcome.Reads broken F s)
    (weaker : ∀ parts next, F.Sentence broken parts next → G.Sentence broken parts next) :
    outcome.Reads broken G s :=
  reads.transfer id rfl id weaker

theorem Reaches.faulty (reaches : outcome.Reaches s) (t : State) (ended : outcome = .ok t)
    (faulty : s.Faulty) : t.Faulty := by
  subst ended
  exact faulty.mono reaches

theorem Reads.after (first : (ok t).Reads broken F s)
    (second : t.builder.top.pending = none → outcome.Reads broken G t)
    (faults : ∀ u, outcome = .ok u → t.Faulty → u.Faulty)
    (cut : ∀ parts, (F.Sentence broken).Unfinished parts → (H.Sentence broken).Unfinished parts)
    (join : ∀ left right next, F.Sentence broken left (firstKind right next) →
      G.Sentence broken right next → H.Sentence broken (left ++ right) next) :
    outcome.Reads broken H s := by
  intro proper
  cases outcome with
  | ok u =>
      intro clean
      obtain ⟨left, built, sentence⟩ := first proper fun faulty => clean (faults u rfl faulty)
      obtain ⟨right, builds, rest⟩ := second built.pending (built.proper proper) clean
      rw [builds.kindAhead_eq] at sentence
      exact ⟨left ++ right, built.trans builds, join left right _ sentence rest⟩
  | failed e u =>
      intro hb
      obtain ⟨left, built, sentence⟩ := first proper fun _ => hb
      obtain ⟨right, builds, unfinished⟩ := second built.pending (built.proper proper) hb
      rw [built.depth_eq] at builds
      refine ⟨left ++ right, built.trans builds, ?_⟩
      by_cases none : right = []
      · rw [none, List.append_nil]
        exact cut left (.of_phrase sentence)
      · rw [builds.kindAhead_eq] at sentence
        refine unfinished.prepend (builds.tokensOf_ne_nil none)
          (k := kindAhead (u.closedTo s.depth).rest) fun right' next whole same => ⟨next, ?_⟩
        exact join left right' next (same ▸ sentence) whole

theorem Reads.bind (first : outcome.Reads broken F s)
    (second : ∀ t, outcome = .ok t → t.builder.top.pending = none → (next t).Reads broken G t)
    (reaches : ∀ t, (next t).Reaches t)
    (cut : ∀ parts, (F.Sentence broken).Unfinished parts → (H.Sentence broken).Unfinished parts)
    (join : ∀ left right next, F.Sentence broken left (firstKind right next) →
      G.Sentence broken right next → H.Sentence broken (left ++ right) next) :
    (outcome.andThen next).Reads broken H s := by
  cases outcome with
  | ok t => exact first.after (second t rfl) (reaches t).faulty cut join
  | failed e t =>
      intro proper hb
      obtain ⟨parts, builds, unfinished⟩ := first proper hb
      exact ⟨parts, builds, cut parts unfinished⟩

theorem Reads.andThen (first : outcome.Reads broken F s)
    (second : ∀ t, outcome = .ok t → t.builder.top.pending = none → (next t).Reads broken G t)
    (reaches : ∀ t, (next t).Reaches t) (joins : F.joins G = true) :
    (outcome.andThen next).Reads broken (.seq F G) s :=
  first.bind second reaches (fun _ => Form.Unfinished.seq_left joins)
    fun left right _ hl hr => ⟨left, right, rfl, hl, hr⟩

theorem Reads.node {kind : NodeKind} {offset : Nat}
    (reads : outcome.Reads broken (production kind) (s.onBuilder (Builder.startNode kind offset))) :
    (outcome.andThen fun t => .ok (t.onBuilder Builder.close)).Reads broken
      (.node s.builder.top.pending kind) s := by
  intro proper
  have reads := reads proper
  cases outcome with
  | ok t =>
      intro clean
      obtain ⟨parts, builds, sentence⟩ := reads clean
      have filled : parts ≠ [] := sentence.ne_nil (production_first kind).1
      exact ⟨_, ⟨builds.toGrows.close filled, fun depth =>
        ⟨⟨⟨filled, .inl ⟨rfl, sentence⟩⟩, builds.licensed (depth + 1)⟩, trivial⟩⟩,
        _, rfl, rfl, _, List.mem_singleton_self _, rfl, rfl⟩
  | failed e t =>
      intro hb
      obtain ⟨parts, builds, unfinished⟩ := reads hb
      have closed : s.Grows (t.closedTo s.depth) _ := builds.toGrows.closedTo
      by_cases none : parts = []
      · rw [if_pos none] at closed
        exact ⟨[], ⟨closed, fun _ => trivial⟩, Form.Unfinished.of_grounded rfl⟩
      · rw [if_neg none] at closed
        exact ⟨_, ⟨closed, fun depth =>
          ⟨⟨⟨none, .inr ⟨hb, rfl, unfinished⟩⟩, builds.licensed (depth + 1)⟩, trivial⟩⟩,
          [], .endOfInput, .inr ⟨[], _, rfl, _, rfl, rfl, _, List.mem_singleton_self _, rfl, rfl⟩⟩

theorem reads_failed (grounded : F.grounded = true) (e : SyntaxError) :
    (failed e s).Reads broken F s :=
  fun _ _ => ⟨[], ⟨State.closedTo_grows, fun _ => trivial⟩, Form.Unfinished.of_grounded grounded⟩

theorem Reads.of_pending {pending : Option FieldName}
    (reads : outcome.Reads broken F
      (s.onBuilder (Builder.mapTop fun n => { n with pending := pending }))) :
    outcome.Reads broken F s :=
  reads.transfer id rfl (fun builds => ⟨builds.toGrows.of_pending, builds.licensed⟩) fun _ _ => id

theorem Reads.of_same (reads : outcome.Reads broken F t) (rest : t.rest = s.rest)
    (endOfInput : t.endOfInput = s.endOfInput) (lexical : t.lexicalErrors = s.lexicalErrors)
    (builder : t.builder = s.builder) : outcome.Reads broken F s := by
  refine reads.transfer (fun proper => ?_) (congrArg Builder.depth builder) (fun builds => ?_)
    fun _ _ => id
  · rwa [State.Proper, rest]
  · exact ⟨⟨rest ▸ builds.rest, endOfInput ▸ builds.endOfInput, lexical ▸ builds.lexical,
      builder ▸ builds.builder⟩, builds.licensed⟩

theorem Reads.whenBroken (reads : outcome.Reads broken F s) (faulty : s.Faulty)
    (reaches : outcome.Reaches s) : outcome.Reads broken (.whenBroken F) s := by
  intro proper
  have reads := reads proper
  cases outcome with
  | ok t =>
      intro clean
      obtain ⟨parts, builds, sentence⟩ := reads clean
      exact ⟨parts, builds, clean (faulty.mono reaches), sentence⟩
  | failed e t =>
      intro hb
      obtain ⟨parts, builds, unfinished⟩ := reads hb
      exact ⟨parts, builds, unfinished.mono fun parts next sentence => ⟨next, hb, sentence⟩⟩

theorem Reads.label {symbols : List Symbol} (reads : outcome.Reads broken (.one none symbols) s)
    (atomic : ∀ e t, outcome = .failed e t → t = s) (field : FieldName) :
    (outcome.andThen fun t => .ok (t.onBuilder (Builder.mapTop (OpenNode.nameLast field)))).Reads broken
      (.one (some field) symbols) s := by
  have named : ∀ {parts next}, (Form.one none symbols).Sentence broken parts next → ∃ part,
      parts = [part] ∧ part.label = none ∧
        (Form.one (some field) symbols).Sentence broken [part.named field] next := by
    rintro parts next ⟨part, rfl, label, symbol, mem, fits⟩
    exact ⟨part, rfl, label, _, rfl, label_named field part, symbol, mem, fits.named field⟩
  intro proper
  have reads := reads proper
  cases outcome with
  | ok t =>
      intro clean
      obtain ⟨_, builds, sentence⟩ := reads clean
      obtain ⟨part, rfl, label, sentence⟩ := named sentence
      exact ⟨_, ⟨builds.toGrows.nameLast label field, fun depth =>
        ⟨licensed_named.mpr (builds.licensed depth).1, trivial⟩⟩, sentence⟩
  | failed e t =>
      intro hb
      obtain rfl := atomic e t rfl
      obtain ⟨parts, -, more, next, whole | ⟨before, last, -, whole⟩⟩ := reads hb
      · obtain ⟨part, -, -, sentence⟩ := named whole
        exact ⟨[], ⟨State.closedTo_grows, fun _ => trivial⟩, _, next, .inl sentence⟩
      · obtain ⟨part, -, -, sentence⟩ := named whole
        exact ⟨[], ⟨State.closedTo_grows, fun _ => trivial⟩, _, next, .inl sentence⟩

end Outcome

/-! ## Tokens -/

theorem licensedAll_tokens (R : Nat → NodeKind → Bool → List Part → TokenKind → Prop) (depth : Nat)
    (taken : List Token) (next : TokenKind) : LicensedAll R depth (taken.map (.token none)) next := by
  induction taken with
  | nil => trivial
  | cons t taken ih => exact ⟨trivial, ih⟩

namespace Rule
open Outcome

variable {broken : Prop} {s : State}

theorem takeWhile_reads {look : Look} {kinds : List TokenKind}
    (test : ∀ tokens, look.holds tokens = kinds.contains (kindAhead tokens))
    (within : .endOfInput ∉ kinds) (pending : s.builder.top.pending = none) :
    (ok (s.takeWhile look)).Reads broken (.run kinds) s := by
  obtain ⟨taken, grows, all, stops⟩ := State.takeWhile_grows test within pending
  refine .of_builds ⟨grows, fun depth => licensedAll_tokens _ depth taken _⟩ ⟨fun part mem => ?_, stops⟩
  obtain ⟨t, isTaken, rfl⟩ := List.mem_map.mp mem
  exact ⟨t, rfl, all t isTaken⟩

theorem holds_terminator (tokens : List Token) :
    Look.terminator.holds tokens = [TokenKind.semicolon, .newline].contains (kindAhead tokens) := by
  change (kindAhead tokens == .semicolon || kindAhead tokens == .newline) = _
  cases kindAhead tokens <;> rfl

theorem terminator_reads (enter : Category → State → Outcome) (pending : s.builder.top.pending = none) :
    (terminator.run enter s).Reads broken .ending s := by
  have closes : Look.closing.holds s.rest = (kindAhead s.rest).isClosing := by
    rw [Look.holds_of_byKind rfl]
    simp [Look.closing, Look.anyOf, Look.ofKind, Look.punct, Look.atEnd, TokenKind.isClosing,
      Bool.or_assoc]
  simp only [terminator, run]
  split
  · rename_i holds
    obtain ⟨taken, grows, all, stops⟩ :=
      State.takeWhile_grows holds_terminator (by decide) pending
    have ends : (kindAhead (s.takeWhile .terminator).rest).isTerminator = false := by
      revert stops
      cases kindAhead (s.takeWhile .terminator).rest <;> simp [TokenKind.isTerminator]
    refine .of_builds ⟨grows, fun depth => licensedAll_tokens _ depth taken _⟩
      ⟨fun part mem => ?_, ends, fun none => ?_⟩
    · obtain ⟨t, isTaken, rfl⟩ := List.mem_map.mp mem
      have kind := all t isTaken
      simp only [List.mem_cons, List.not_mem_nil, or_false] at kind
      exact ⟨t, rfl, by simpa [TokenKind.isTerminator] using kind⟩
    · rw [none] at grows
      rw [holds_terminator, grows.kindAhead_eq] at holds
      exact absurd (by simpa using holds) stops
  · split
    · rename_i closing
      rw [closes] at closing
      refine .of_builds (.refl pending) ⟨by simp, ?_, fun _ => closing⟩
      revert closing
      cases kindAhead s.rest <;> simp [TokenKind.isClosing, TokenKind.isTerminator]
    · exact reads_failed rfl _

end Rule

/-! ## Lists -/

namespace Rule
open Outcome

variable {broken : Prop} {go : Look} {ends : Option (TokenKind → Bool)} {F G H : Form}
  {item before after : State → Outcome}

def listTail (ends : Option (TokenKind → Bool)) (F G H : Form) : Form :=
  .alt (.seq (.punct .comma) (.seq H (.list ends F G H))) .empty

theorem sentence_list {left right : List Part} {next : TokenKind}
    (first : (Form.seq F G).Sentence broken left (firstKind right next))
    (rest : (listTail ends F G H).Sentence broken right next) :
    (Form.list ends F G H).Sentence broken (left ++ right) next := by
  obtain ⟨own, gap, rfl, hi, hg⟩ := first
  obtain more | none := rest
  · obtain ⟨comma, _, rfl, isComma, space, others, rfl, hs, hl⟩ := Form.sentence_token_seq.mp more
    have ahead : firstKind (.token none comma :: (space ++ others)) next = .punct .comma := isComma
    rw [ahead] at hi hg
    rw [List.append_assoc]
    exact .more isComma hi hg hs hl
  · obtain rfl : right = [] := none
    rw [List.append_nil]
    exact .last hi hg

/-- Every round takes a comma, so the rounds suffice. -/
theorem runSeparated_reads
    (goes : ∀ tokens, go.holds tokens = !ends.any (· (kindAhead tokens)))
    (hi : ∀ s, s.builder.top.pending = none → (item s).Reads broken F s)
    (hb : ∀ s, s.builder.top.pending = none → (before s).Reads broken G s)
    (ha : ∀ s, s.builder.top.pending = none → (after s).Reads broken H s)
    (ri : ∀ s, (item s).Reaches s) (rb : ∀ s, (before s).Reaches s) (ra : ∀ s, (after s).Reaches s)
    (joins : F.joins G = true) (grounded : H.grounded = true)
    (joins' : H.joins (.list ends F G H) = true) {rounds : Nat} {s : State}
    (pending : s.builder.top.pending = none) (enough : s.rest.length < rounds) :
    (runSeparated go item before after rounds s).Reads broken (.list ends F G H) s := by
  induction rounds generalizing s with
  | zero => exact absurd enough (Nat.not_lt_zero _)
  | succ rounds ih =>
      -- What comes behind an item and its gap.
      have tail : ∀ t : State, t.rest.length < rounds + 1 → t.builder.top.pending = none →
          (if (Look.punct .comma).holds t.rest then
            (after t.take).andThen (runSeparated go item before after rounds) else .ok t).Reads broken
              (listTail ends F G H) t := by
        intro t few pending
        split
        · rename_i comma
          obtain ⟨c, rest, ahead, isComma⟩ :=
            exists_token (show kindAhead t.rest = .punct .comma by simpa [Look.punct] using comma)
              (by simp)
          have taken := State.take_grows ahead
          rw [pending] at taken
          have shorter : t.take.rest.length < rounds := by
            have := congrArg List.length taken.rest
            simp only [tokensOf, Part.tokens, List.length_append, List.length_cons, List.length_nil]
              at this
            omega
          have first : (ok t.take).Reads broken (.punct .comma) t :=
            .of_builds ⟨taken, fun _ => ⟨trivial, trivial⟩⟩
              (Form.sentence_token.mpr ⟨c, rfl, isComma⟩)
          refine .mono (show ((ok t.take).andThen fun t => (after t).andThen
            (runSeparated go item before after rounds)).Reads broken
              (.seq (.punct .comma) (.seq H (.list ends F G H))) t from first.andThen ?_ ?_ ?_)
            fun _ _ => .inl
          · rintro _ ⟨⟩ pending
            refine (ha _ pending).andThen (fun u eq pending => ih pending ?_)
              (runSeparated_reaches ri rb ra rounds) joins'
            have le := (ra t.take).length_le eq
            omega
          · exact fun u => (ra u).andThen (runSeparated_reaches ri rb ra rounds)
          · simp only [Form.joins, Bool.and_eq_true] at joins'
            rw [Form.joins, Form.grounded, grounded, joins'.1, joins'.2]
            rfl
        · exact .of_builds (.refl pending) (.inr rfl)
      rw [runSeparated, goes]
      cases stop : ends.any (· (kindAhead s.rest)) with
      | true =>
          cases ends with
          | none => cases stop
          | some test => exact .of_builds (.refl pending) (.stop test rfl stop)
      | false =>
          have reaches : ∀ t : State, (if (Look.punct .comma).holds t.rest then
              (after t.take).andThen (runSeparated go item before after rounds) else .ok t).Reaches t := by
            intro t
            split
            · exact ((ra t.take).andThen (runSeparated_reaches ri rb ra rounds)).of_steps
                (State.Step.take t).steps
            · exact .refl
          have first : ((item s).andThen before).Reads broken (.seq F G) s :=
            (hi s pending).andThen (fun t _ => hb t) rb joins
          simp only [Bool.not_false, if_true, ← andThen_assoc]
          refine first.bind (fun t eq => tail t ?_) reaches (fun parts unfinished => ?_)
            fun left right next => sentence_list
          · have le := ((ri s).andThen rb).length_le eq
            omega
          · refine unfinished.mono fun parts next sentence => ⟨next, ?_⟩
            have whole := @sentence_list broken ends F G H parts [] next sentence (.inr rfl)
            rwa [List.append_nil] at whole

end Rule

/-! ## Recovery -/

theorem rawPart_fits {t : Token} (token : t.kind ≠ .endOfInput) : Symbol.raw.Fits (rawPart t) := by
  unfold rawPart
  split
  · rename_i kind
    exact ⟨.inl rfl, by simp [kind, NodeKind.splits]⟩
  · rename_i kind
    exact ⟨.inr rfl, by simp [kind, NodeKind.splits]⟩
  · rename_i noString noCharacter
    refine ⟨?_, token⟩
    revert noString noCharacter
    cases t.kind <;> simp [TokenKind.isLiteral, TokenKind.terminated?]

theorem licensedAll_rawParts (R : Nat → NodeKind → Bool → List Part → TokenKind → Prop) (depth : Nat)
    (tokens : List Token) (next : TokenKind) : LicensedAll R depth (tokens.map rawPart) next := by
  induction tokens with
  | nil => trivial
  | cons t tokens ih =>
      refine ⟨?_, ih⟩
      unfold rawPart
      split <;> trivial

theorem sentence_rawParts {broken : Prop} {tokens : List Token} {next : TokenKind}
    (proper : ∀ t ∈ tokens, t.kind ≠ .endOfInput) (some : tokens ≠ []) :
    (production .error).Sentence broken (tokens.map rawPart) next := by
  have single : ∀ t ∈ tokens, ∀ next, (Form.one none [.raw]).Sentence broken [rawPart t] next :=
    fun t mem _ => ⟨_, rfl, label_rawPart t, _, List.mem_singleton_self _, rawPart_fits (proper t mem)⟩
  obtain ⟨first, others, rfl⟩ := List.exists_cons_of_ne_nil some
  refine .inr ⟨[rawPart first], others.map rawPart, rfl, single first List.mem_cons_self _, ?_⟩
  have rest : ∀ t ∈ others, ∀ next, (Form.one none [.raw]).Sentence broken [rawPart t] next :=
    fun t mem => single t (List.mem_cons_of_mem _ mem)
  clear single proper some
  change ((Form.one none [.raw]).Sentence broken).Many _ _
  induction others with
  | nil => exact .nil next
  | cons t others ih =>
      exact .cons (rest t List.mem_cons_self _) (ih fun u mem => rest u (List.mem_cons_of_mem _ mem))

namespace State

variable {broken : Prop} {s : State}

theorem discard_builds (count : Nat) (hb : s.rest.take count ≠ [] → broken) (proper : s.Proper)
    (pending : s.builder.top.pending = none) :
    ∃ skipped, s.Builds broken (s.discard count) skipped ∧
      (Form.optional .skipped).Sentence broken skipped (kindAhead (s.discard count).rest) := by
  by_cases none : s.rest.take count = []
  · have same : s.discard count = s := by
      unfold discard
      simp [none]
    rw [same]
    exact ⟨[], .refl pending, .inr rfl⟩
  · have proper' : ∀ t ∈ s.rest.take count, t.kind ≠ .endOfInput :=
      fun t mem => proper t (List.mem_of_mem_take mem)
    refine ⟨_, ⟨discard_grows count pending none, fun depth => ⟨⟨⟨?_, .inl ⟨rfl, ?_⟩⟩, ?_⟩, trivial⟩⟩,
      .inl ⟨hb none, _, rfl, rfl, _, List.mem_singleton_self _, rfl, rfl⟩⟩
    · simpa using none
    · exact sentence_rawParts proper' none
    · exact licensedAll_rawParts _ _ _ _

end State

namespace Outcome

variable {broken : Prop} {F : Form} {s : State} {outcome : Outcome}

theorem Reads.recovered (reads : outcome.Reads broken F s) (sync : SyncSet) :
    (ok (outcome.recovered s.depth sync)).Reads broken (.tried F) s := by
  intro proper clean
  cases outcome with
  | ok t =>
      obtain ⟨parts, builds, sentence⟩ := reads proper clean
      exact ⟨parts, builds, parts, [], (List.append_nil _).symm, .inl sentence, .inr rfl⟩
  | failed e t =>
      have hb : broken := clean ⟨e, State.mem_errors_recover e s.depth sync t⟩
      obtain ⟨parts, builds, unfinished⟩ := reads proper hb
      let closed : State := (t.record (.syntactic e)).closedTo s.depth
      have built : s.Builds broken closed parts := builds.record e
      obtain ⟨skipped, more, sentence⟩ := State.discard_builds
        (State.skipLength sync.look 0 closed.rest) (fun _ => hb) (built.proper proper) built.pending
      refine ⟨parts ++ skipped, built.trans ?_, parts, skipped, rfl, .inr ⟨hb, unfinished⟩, ?_⟩
      all_goals simp only [Outcome.recovered, State.recover]
      · split
        · exact more
        · exact ⟨⟨more.rest, more.endOfInput, more.lexical, more.builder⟩, more.licensed⟩
      · split <;> exact sentence

end Outcome

/-! ## Items -/

theorem many_append {phrases : Phrases} {left right : List Part} {next : TokenKind}
    (first : phrases.Many left (firstKind right next)) (second : phrases.Many right next) :
    phrases.Many (left ++ right) next := by
  generalize ahead : firstKind right next = k at first
  induction first with
  | nil => exact second
  | @cons one more k phrase _ ih =>
      subst ahead
      rw [List.append_assoc]
      exact .cons (by simpa using phrase) (ih rfl)

theorem many_tokens {phrases : Phrases} {taken : List Token}
    (each : ∀ t ∈ taken, ∀ next, phrases [.token none t] next) (next : TokenKind) :
    phrases.Many (taken.map (.token none)) next := by
  induction taken with
  | nil => exact .nil next
  | cons t taken ih =>
      exact .cons (each t List.mem_cons_self _) (ih fun u mem => each u (List.mem_cons_of_mem _ mem))

namespace Rule
open Outcome

variable {broken : Prop} {F : Form} {s : State} {sync : SyncSet} {item : State → Outcome}

theorem itemRound_reads (reads : (item s).Reads broken F s) (solid : F.nullable = false) :
    (ok (itemRound sync item s)).Reads broken (.tried F) s := by
  have recovered := reads.recovered sync
  unfold itemRound
  dsimp only
  split
  · rename_i stuck
    -- The item failed at once, so its parts are missing as a whole.
    intro proper clean
    have clean' := fun faulty : ((item s).recovered s.depth sync).Faulty =>
      clean (faulty.mono (State.skipStuck_steps _))
    obtain ⟨parts, builds, left, right, rfl, attempt, -⟩ := recovered proper clean'
    have nothing : left ++ right = [] := by
      by_contra filled
      have lengths := congrArg List.length builds.rest
      rw [List.length_append, stuck] at lengths
      exact builds.tokensOf_ne_nil filled (List.length_eq_zero_iff.mp (by omega))
    obtain ⟨rfl, rfl⟩ := List.append_eq_nil_iff.mp nothing
    obtain whole | ⟨hb, unfinished⟩ := attempt
    · exact absurd rfl (whole.ne_nil solid)
    have noted := builds.trans ⟨State.note_grows (.stuck ((item s).recovered s.depth sync).offset)
      builds.pending, fun _ => trivial⟩
    obtain ⟨skipped, more, sentence⟩ :=
      State.discard_builds 1 (fun _ => hb) (noted.proper proper) noted.pending
    exact ⟨skipped, noted.trans more, [], skipped, rfl, .inr ⟨hb, unfinished⟩, sentence⟩
  · exact recovered

theorem runItems_reads {stop : Look}
    (reads : ∀ s, s.builder.top.pending = none → (item s).Reads broken F s)
    (reaches : ∀ s, (item s).Reaches s) (solid : F.nullable = false) (rounds : Nat)
    (pending : s.builder.top.pending = none) :
    (ok (runItems stop sync item rounds s)).Reads broken (.items F) s := by
  induction rounds generalizing s with
  | zero => exact .of_builds (.refl pending) (.nil _)
  | succ rounds ih =>
      rw [runItems_succ]
      obtain ⟨taken, grows, all, -⟩ := State.takeWhile_grows holds_terminator (by decide) pending
      have single : ∀ t ∈ taken, ∀ next, (Form.alt (.one none [.token .semicolon, .token .newline])
          (.tried F)).Sentence broken [.token none t] next := by
        intro t mem next
        have kind := all t mem
        simp only [List.mem_cons, List.not_mem_nil, or_false] at kind
        obtain kind | kind := kind
        · exact .inl ⟨_, rfl, rfl, _, List.mem_cons_self, kind⟩
        · exact .inl ⟨_, rfl, rfl, _, List.mem_cons_of_mem _ List.mem_cons_self, kind⟩
      have terminators : (ok (s.takeWhile .terminator)).Reads broken (.items F) s :=
        .of_builds ⟨grows, fun depth => licensedAll_tokens _ depth taken _⟩ (many_tokens single _)
      split
      · exact terminators
      -- Items in a row are items again, so the terminators, the round and the rounds that are
      -- left can be put together one by one.
      · have join : ∀ left right next, (Form.items F).Sentence broken left (firstKind right next) →
            (Form.items F).Sentence broken right next →
              (Form.items F).Sentence broken (left ++ right) next := fun _ _ _ => many_append
        have round : (ok (itemRound sync item (s.takeWhile .terminator))).Reads broken (.items F)
            (s.takeWhile .terminator) := by
          refine (itemRound_reads (reads _ grows.pending) solid).mono fun parts next sentence => ?_
          have once : (Form.items F).Sentence broken (parts ++ []) next :=
            .cons (.inr sentence) (.nil next)
          rwa [List.append_nil] at once
        have first : ((ok (s.takeWhile .terminator)).andThen fun t => .ok (itemRound sync item t)).Reads
            broken (.items F) s := by
          refine terminators.bind ?_ (itemRound_steps reaches) (fun _ => id) join
          rintro _ ⟨⟩ -
          exact round
        exact show ((ok (itemRound sync item (s.takeWhile .terminator))).andThen fun t =>
            .ok (runItems stop sync item rounds t)).Reads broken (.items F) s from
          first.bind (fun t _ => ih) (fun t => (runItems_rounds _ _ _ _ t).steps reaches) (fun _ => id)
            join

end Rule

/-! ## Braces -/

namespace Grammar
open Outcome

def braceHead : Form := .seq (.punct .leftBrace) .terminators

theorem braceOpened_grows {s : State} (brace : kindAhead s.rest = .punct .leftBrace) :
    ∃ head, (s.onBuilder (Builder.startNode .arrayLiteral s.offset)).Grows (braceOpened s) head ∧
      (∀ broken, braceHead.Sentence broken head (kindAhead (braceOpened s).rest)) ∧
      ∀ R depth next, LicensedAll R depth head next := by
  obtain ⟨t, rest, ahead, isBrace⟩ := exists_token brace (by simp)
  have taken := @State.take_grows (s.onBuilder (Builder.startNode .arrayLiteral s.offset)) t rest ahead
  obtain ⟨terminators, grows, all, stops⟩ :=
    State.takeWhile_grows Rule.holds_terminator (by decide) taken.pending
  refine ⟨_, taken.trans grows, fun broken => ?_, fun R depth next => ?_⟩
  · refine Form.sentence_token_seq.mpr ⟨t, _, rfl, isBrace, fun part mem => ?_, stops⟩
    obtain ⟨u, isTaken, rfl⟩ := List.mem_map.mp mem
    exact ⟨u, rfl, all u isTaken⟩
  · exact ⟨trivial, licensedAll_tokens R depth terminators next⟩

section
variable {broken : Prop} {parts left right : List Part} {next : TokenKind}

theorem sentence_emptyBrace (head : braceHead.Sentence broken left (firstKind right next))
    (last : (Form.punct .rightBrace).Sentence broken right next) :
    (production .arrayLiteral).Sentence broken (left ++ right) next := by
  obtain ⟨brace, terminators, rfl, hb, ht⟩ := head
  rw [List.append_assoc]
  refine ⟨brace, _, rfl, ?_, terminators, _, rfl, ht, [], right, rfl, .inr rfl, last⟩
  rw [firstKind_append]
  exact hb

theorem sentence_arrayLiteral (head : braceHead.Sentence broken left (firstKind right next))
    (rest : (Form.seq (.expression none) (.inOrder [.moreItems (.expression none), .terminators,
      .punct .rightBrace])).Sentence broken right next) :
    (production .arrayLiteral).Sentence broken (left ++ right) next := by
  obtain ⟨brace, terminators, rfl, hb, ht⟩ := head
  obtain ⟨first, _, rfl, hf, more, _, rfl, hm, gap, last, rfl, hg, hl⟩ := rest
  simp only [firstKind_append] at hb ht hf hm
  refine ⟨brace, terminators ++ (first ++ (more ++ (gap ++ last))), by simp, by simpa using hb,
    terminators, first ++ (more ++ (gap ++ last)), rfl, by simpa using ht, first ++ (more ++ gap), last,
    by simp, .inl ⟨first, more ++ gap, rfl, by simpa using hf, more, gap, rfl, hm, hg⟩, hl⟩

theorem sentence_mapLiteral (head : braceHead.Sentence broken left (firstKind right next))
    (rest : (Form.seq (.node none .mapEntry) (.inOrder [.moreItems (.node none .mapEntry), .terminators,
      .punct .rightBrace])).Sentence broken right next) :
    (production .mapLiteral).Sentence broken (left ++ right) next := by
  obtain ⟨brace, terminators, rfl, hb, ht⟩ := head
  rw [List.append_assoc]
  refine ⟨brace, _, rfl, ?_, terminators, right, rfl, ht, rest⟩
  rw [firstKind_append]
  exact hb

end

theorem braceHead_cut {broken : Prop} {F G : Form} (joins : braceHead.joins F = true)
    (whole : ∀ left right next, braceHead.Sentence broken left (firstKind right next) →
      F.Sentence broken right next → G.Sentence broken (left ++ right) next) (parts : List Part)
    (unfinished : (braceHead.Sentence broken).Unfinished parts) : (G.Sentence broken).Unfinished parts := by
  refine (Form.Unfinished.seq_left joins unfinished).mono fun parts next sentence => ⟨next, ?_⟩
  obtain ⟨left, right, rfl, head, rest⟩ := sentence
  exact whole left right next head rest

theorem expect_reads {broken : Prop} (p : Punct) (enter : Category → State → Outcome) {s : State}
    (pending : s.builder.top.pending = none) :
    ((Rule.expect p).run enter s).Reads broken (.punct p) s := by
  simp only [Rule.expect, Rule.run]
  split
  · rename_i holds
    obtain ⟨t, rest, ahead, kind⟩ :=
      exists_token (show kindAhead s.rest = .punct p by simpa [Look.punct] using holds) (by simp)
    have taken := State.take_grows ahead
    rw [pending] at taken
    exact .of_builds ⟨taken, fun _ => ⟨trivial, trivial⟩⟩ (Form.sentence_token.mpr ⟨t, rfl, kind⟩)
  · exact reads_failed rfl _

/-- The key, as if it had been labelled in an entry of its own from the start. -/
theorem braceKeyed_reads {broken : Prop} {s t : State} {before : List Part}
    (shows : s.builder.top.Shows before) (pending : s.builder.top.pending = none)
    (first : (ok t).Reads broken (.expression none) s) :
    ∃ offset, (ok (braceKeyed t)).Reads broken (.expression (some .key))
      ((s.onBuilder (Builder.mapTop fun n => { n with kind := .mapLiteral })).onBuilder
        (Builder.startNode .mapEntry offset)) := by
  refine ⟨((t.builder.mapTop fun n => { n with kind := .mapLiteral }).startAroundLast .mapEntry
    t.offset).top.offset, fun proper clean => ?_⟩
  obtain ⟨_, builds, part, rfl, unnamed, symbol, mem, fits⟩ := first proper clean
  have retagged := builds.toGrows.retag .mapLiteral
  have moved := retagged.startAroundLast unnamed ⟨shows.children, shows.fields⟩ pending .mapEntry t.offset
  exact ⟨_, ⟨moved.nameLast unnamed .key, fun depth =>
    ⟨licensed_named.mpr (builds.licensed depth).1, trivial⟩⟩, _, rfl, label_named _ _, symbol, mem,
    fits.named .key⟩

theorem braceLiteral_reads {broken : Prop} {enter : Category → State → Outcome}
    (reaches : ∀ category s, (enter category s).Reaches s)
    (reads : ∀ category s, (enter category s).Reads broken
      (category.form s.builder.top.pending) s)
    (value : ∀ s, s.builder.top.pending = none → (mapValue.run enter s).Reads broken
      (.inOrder [.punct .colon, .terminators, .expression (some .value)]) s)
    (entries : ∀ s, s.builder.top.pending = none → ((braceTail mapEntry).run enter s).Reads broken
      (.inOrder [.moreItems (.node none .mapEntry), .terminators, .punct .rightBrace]) s)
    (items : ∀ s, s.builder.top.pending = none → ((braceTail .expression).run enter s).Reads broken
      (.inOrder [.moreItems (.expression none), .terminators, .punct .rightBrace]) s)
    {s : State} (brace : kindAhead s.rest = .punct .leftBrace) :
    (braceLiteral.run enter s).Reads broken
      (.one s.builder.top.pending [.node .arrayLiteral, .node .mapLiteral]) s := by
  have ran := fun rule => Rule.run_reaches reaches rule
  obtain ⟨head, grows, sentence, licensed⟩ := braceOpened_grows brace
  have pending : (braceOpened s).builder.top.pending = none := grows.pending
  have opened : (ok (braceOpened s)).Reads broken braceHead
      (s.onBuilder (Builder.startNode .arrayLiteral s.offset)) :=
    .of_builds ⟨grows, fun depth => licensed _ depth _⟩ (sentence broken)
  have expression := reads .expression (braceOpened s)
  rw [pending] at expression
  rw [run_braceLiteral]
  have rest : ∀ t : State, (if (Look.punct .colon).holds t.rest then
      ((mapValue.run enter (braceKeyed t)).andThen fun u => .ok (u.onBuilder Builder.close)).andThen
        ((braceTail mapEntry).run enter)
      else (braceTail .expression).run enter t).Reaches t := by
    intro t
    split
    · refine (((ran mapValue _).andThen Rule.closed_reaches).andThen (ran _)).of_steps ?_
      exact .head (.retag t .mapLiteral) (.head (.startAroundLast _ .mapEntry) (.single (.nameLast _ .key)))
    · exact ran _ t
  have closed : ∀ kind ∈ [NodeKind.arrayLiteral, .mapLiteral], ∀ outcome : Outcome,
      outcome.Reads broken (production kind) (s.onBuilder (Builder.startNode kind s.offset)) →
        (outcome.andThen fun u => .ok (u.onBuilder Builder.close)).Reads broken
          (.one s.builder.top.pending [.node .arrayLiteral, .node .mapLiteral]) s := by
    intro kind mem outcome reads
    refine reads.node.mono (Form.Sentence.widen ?_ broken)
    simpa using mem
  -- The node is opened as an array. It stays one unless a colon comes behind the first
  -- expression, which then becomes a key.
  by_cases empty : (Look.punct .rightBrace).holds (braceOpened s).rest = true
  · rw [if_pos empty]
    exact closed .arrayLiteral (by simp) _ (opened.after (expect_reads .rightBrace enter)
      (ran (.expect .rightBrace) _).faulty (braceHead_cut rfl fun _ _ _ => sentence_emptyBrace)
      fun _ _ _ => sentence_emptyBrace)
  rw [if_neg empty]
  by_cases key : ∃ t, enter .expression (braceOpened s) = .ok t ∧ (Look.punct .colon).holds t.rest = true
  · obtain ⟨t, eq, colon⟩ := key
    rw [eq] at expression ⊢
    have shows : (braceOpened s).builder.top.Shows head :=
      grows.builder.shows [] (OpenNode.empty_shows _ _)
    obtain ⟨offset, keyed⟩ := braceKeyed_reads shows pending expression
    have entry : ((mapValue.run enter (braceKeyed t)).andThen fun u =>
        .ok (u.onBuilder Builder.close)).Reads broken (.node none .mapEntry)
          ((braceOpened s).onBuilder (Builder.mapTop fun n => { n with kind := .mapLiteral })) := by
      rw [← pending]
      exact Reads.node (keyed.andThen (fun t _ => value t) (ran mapValue) (by decide))
    have body := entry.andThen (fun t _ => entries t) (ran (braceTail mapEntry)) (by decide)
    have retagged : (ok ((braceOpened s).onBuilder (Builder.mapTop fun n =>
        { n with kind := .mapLiteral }))).Reads broken braceHead
          (s.onBuilder (Builder.startNode .mapLiteral s.offset)) :=
      .of_builds ⟨grows.retag .mapLiteral, fun depth => licensed _ depth _⟩ (sentence broken)
    change (Outcome.andThen (if (Look.punct .colon).holds t.rest = true then _ else _) _).Reads _ _ _
    rw [if_pos colon]
    refine closed .mapLiteral (by simp) _ (retagged.after (fun _ => body) (fun u ended faulty => ?_)
      (braceHead_cut (by decide) fun _ _ _ => sentence_mapLiteral) fun _ _ _ => sentence_mapLiteral)
    refine (rest t).faulty u ?_ ((reaches .expression _).faulty t eq faulty)
    rw [if_pos colon]
    exact ended
  · refine closed .arrayLiteral (by simp) _ ?_
    refine opened.after (fun pending => expression.andThen (fun t eq pending => ?_) rest (by decide))
      ((reaches .expression _).andThen rest).faulty
      (braceHead_cut (by decide) fun _ _ _ => sentence_arrayLiteral) fun _ _ _ => sentence_arrayLiteral
    rw [if_neg fun colon => key ⟨t, eq, colon⟩]
    exact items t pending

end Grammar

/-! ## Every rule -/

theorem Realizes.reads {broken : Prop} {enter : Category → State → Outcome}
    (reaches : ∀ category s, (enter category s).Reaches s)
    (reads : ∀ category s, (enter category s).Reads broken (category.form s.builder.top.pending) s)
    {host : NodeKind} {inside : Bool} {given : List Token → Prop} {label : Option FieldName}
    {rule : Rule} {F : Form} {a : TokenKind → Bool} (realizes : Realizes host inside given label rule F a)
    {s : State} (holds : given s.rest) (pending : s.builder.top.pending = label) :
    (rule.run enter s).Reads broken F s := by
  have ran := fun rule => Rule.run_reaches reaches rule
  induction realizes generalizing s with
  | done => exact .of_builds (.refl pending) rfl
  | seq _ hands _ joins _ ih₁ ih₂ =>
      exact (ih₁ holds pending).andThen (fun t eq pending => ih₂ (hands enter s t holds eq) pending)
        (ran _) joins
  | congr same _ ih =>
      rw [same]
      exact ih holds pending
  | branch _ _ ih₁ ih₂ =>
      rw [Rule.run]
      split
      · rename_i test
        exact ih₁ ⟨holds, test⟩ pending
      · rename_i test
        exact ih₂ ⟨holds, Bool.eq_false_iff.mpr test⟩ pending
  | weaken _ weaker ih => exact ih (weaker _ holds) pending
  | restrict _ wider _ _ ih => exact (ih holds pending).mono (wider broken)
  | fail issue grounded _ => exact Outcome.reads_failed grounded _
  | announce _ ih =>
      exact (ih (s := s.note (.declaration s.offset)) holds pending).of_same rfl rfl rfl rfl
  | take ahead _ =>
      obtain ⟨t, more, eq, symbol, mem, fits⟩ := ahead _ holds
      subst pending
      exact .of_builds ⟨State.take_grows eq, fun _ => ⟨trivial, trivial⟩⟩ ⟨_, rfl, rfl, symbol, mem, fits⟩
  | takeKeyword k ahead =>
      obtain ⟨t, more, eq, fits⟩ := ahead _ holds
      subst pending
      exact .of_builds ⟨State.takeKeyword_grows eq, fun _ => ⟨trivial, trivial⟩⟩
        ⟨_, rfl, rfl, _, List.mem_singleton_self _, fits⟩
  | takeWhile kinds test within => exact Rule.takeWhile_reads test within pending
  | terminator => exact Rule.terminator_reads enter pending
  | literal kind ahead =>
      obtain ⟨t, more, eq, splits⟩ := ahead _ holds
      subst pending
      exact .of_builds ⟨State.takeLiteral_grows eq kind, fun _ => ⟨trivial, trivial⟩⟩
        ⟨_, rfl, rfl, _, List.mem_singleton_self _, rfl, splits⟩
  | label field atomic _ ih => exact (ih holds pending).label (atomic enter s) field
  | labelNext field _ ih => exact .of_pending (ih holds rfl)
  | node kind _ ih =>
      subst pending
      exact Outcome.Reads.node (ih holds rfl)
  | nested category _ _ =>
      subst pending
      exact reads category s
  | separated goes _ _ _ _ joins grounded joins' _ _ _ ih₁ ih₂ ih₃ =>
      exact Rule.runSeparated_reads goes (fun t => ih₁ trivial) (fun t => ih₂ trivial)
        (fun t => ih₃ trivial) (ran _) (ran _) (ran _) joins grounded joins' pending (Nat.lt_succ_self _)
  | recovering sync _ ih => exact (ih holds pending).recovered sync
  | items stop sync _ solid _ _ _ ih =>
      exact Rule.runItems_reads (fun t => ih trivial) (ran _) solid _ pending
  -- The error of the misplaced import is reported first, so the node of skipped tokens stands in
  -- a broken tree.
  | misplaced _ ih =>
      let reported := s.record (.syntactic (s.errorHere (.misplacedImport .declaration)))
      let opened := reported.onBuilder (Builder.startNode .error reported.offset)
      have inner : (Grammar.imports.run enter opened).Reads broken (production .error) opened :=
        (ih (s := opened) holds rfl).mono fun _ _ => Or.inl
      have error : ((Rule.node .error Grammar.imports).run enter reported).Reads broken
          (.node none .error) reported := pending ▸ inner.node
      have faulty : reported.Faulty := ⟨s.errorHere (.misplacedImport .declaration), by simp [reported, State.record]⟩
      exact (error.whenBroken faulty (ran _ _)).of_same rfl rfl (State.lexicalErrors_record _ s) rfl
  | brace opens _ _ _ ih₁ ih₂ ih₃ =>
      subst pending
      exact Grammar.braceLiteral_reads reaches reads (fun t => ih₁ trivial) (fun t => ih₂ trivial)
        (fun t => ih₃ trivial) (opens _ holds)

end UmkaSyntax
