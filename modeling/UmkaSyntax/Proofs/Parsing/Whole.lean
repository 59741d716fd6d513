import UmkaSyntax.Proofs.Lexing.Origin
import UmkaSyntax.Proofs.Parsing.Shape

namespace UmkaSyntax
open UmkaSyntax.Part Outcome

theorem enterCategory_reads (broken : Prop) (levels : Nat) (category : Category) (s : State) :
    (enterCategory levels category s).Reads broken (category.form s.builder.top.pending) s := by
  have grounded : (category.form s.builder.top.pending).grounded = true := by cases category <;> rfl
  induction levels generalizing category s with
  | zero => exact reads_failed grounded _
  | succ levels ih =>
      rw [enterCategory]
      split
      · exact reads_failed grounded _
      · have realizes : Realizes .block false anywhere s.builder.top.pending
            (Grammar.categoryRule category) (category.form s.builder.top.pending) category.avoid :=
          Grammar.categoryRule_realizes category (by decide)
        exact realizes.reads (enterCategory_reaches levels)
          (fun category s => ih category s (by cases category <;> rfl)) trivial rfl

namespace State

variable {broken : Prop} {F : Form} {s t : State} {parts : List Part} {outcome : Outcome}

theorem Builds.trailing {v : State} (builds : s.Builds broken t parts) (proper : s.Proper)
    (attempt : (Form.attempt F).Sentence broken parts (kindAhead t.rest))
    (same : v = t.takeWhile .terminator ∨ ∃ e, v = (t.takeWhile .terminator).record (.syntactic e))
    (hb : v.rest ≠ [] → broken) :
    ∃ all, s.Builds broken (v.discard v.rest.length) all ∧
      (Form.inOrder [.attempt F, .terminators, .optional .skipped]).Sentence broken all
        (kindAhead (v.discard v.rest.length).rest) := by
  obtain ⟨taken, grows, all, stops⟩ := takeWhile_grows Rule.holds_terminator (by decide) builds.pending
  have terminated : t.Builds broken (t.takeWhile .terminator) (taken.map (.token none)) :=
    ⟨grows, fun depth => licensedAll_tokens _ depth taken _⟩
  have recorded : t.Builds broken v (taken.map (.token none)) := by
    obtain rfl | ⟨e, rfl⟩ := same
    · exact terminated
    · exact terminated.record e
  have ahead : kindAhead v.rest = kindAhead (t.takeWhile .terminator).rest := by
    obtain rfl | ⟨e, rfl⟩ := same <;> rfl
  obtain ⟨skipped, last, sentence⟩ := discard_builds v.rest.length
    (fun some => hb fun none => some (by simp [none])) (recorded.proper (builds.proper proper))
    recorded.pending
  refine ⟨parts ++ (taken.map (.token none) ++ skipped), builds.trans (recorded.trans last),
    parts, _, rfl, ?_, _, skipped, rfl, ⟨fun part mem => ?_, ?_⟩, sentence⟩
  · rw [← (recorded.trans last).kindAhead_eq]
    exact attempt
  · obtain ⟨u, isTaken, rfl⟩ := List.mem_map.mp mem
    exact ⟨u, rfl, all u isTaken⟩
  · rw [← last.kindAhead_eq, ahead]
    exact stops

theorem finish_reads (reads : outcome.Reads broken F s) (root : s.builder.below = []) :
    (ok (finish outcome)).Reads broken (.inOrder [.attempt F, .terminators, .optional .skipped]) s := by
  have depth : s.depth = 1 := by rw [State.depth, Builder.depth, root]; rfl
  intro proper clean
  cases outcome with
  | ok t =>
      have steps : Steps t (finish (.ok t)) := finish_steps (show (ok t).Reaches t from .refl)
      obtain ⟨parts, builds, sentence⟩ := reads proper fun faulty => clean (faulty.mono steps)
      have closed := builds.trans ⟨t.closedTo_grows, fun _ => trivial⟩
      rw [builds.depth_eq, depth, List.append_nil] at closed
      have attempt : (Form.attempt F).Sentence broken parts (kindAhead (t.closedTo 1).rest) := .inl sentence
      simp only [finish] at clean ⊢
      split
      · rename_i none
        refine closed.trailing proper attempt (.inl rfl) fun some => ?_
        exact absurd (List.isEmpty_iff.mp none) some
      · rename_i some
        refine closed.trailing proper attempt (.inr ⟨_, rfl⟩) fun _ => ?_
        rw [if_neg some] at clean
        refine clean ⟨(t.closeToRoot.takeWhile .terminator).errorHere .trailing, ?_⟩
        exact (errors_discard _ _).subset (by simp [State.record])
  | failed e t =>
      have hb : broken := by
        refine clean ⟨e, ?_⟩
        refine (errors_discard _ _).subset ((takeWhile_steps _ _).errors.subset ?_)
        simp [closeToRoot, onBuilder, State.record]
      obtain ⟨parts, builds, unfinished⟩ := reads proper hb
      rw [depth] at builds
      have closed : s.Builds broken (t.record (.syntactic e)).closeToRoot parts := builds.record e
      exact closed.trailing proper (.inr ⟨hb, unfinished⟩) (.inl rfl) fun _ => hb

theorem finish_of_rest_nil {t : State} (none : t.rest = []) : finish (.ok t) = t.closeToRoot := by
  have ended : t.closeToRoot.takeWhile .terminator = t.closeToRoot := by
    rw [State.takeWhile, show t.closeToRoot.rest = [] from none]
    rfl
  simp only [finish, ended, show t.closeToRoot.rest = [] from none]
  unfold discard
  simp [show t.closeToRoot.rest = [] from none]

end State

theorem program_ends {s : State} (proper : s.Proper) :
    ∃ t, Grammar.program.runWhole s = .ok t ∧ t.rest = [] := by
  have reaches := Rule.run_reaches (enterCategory_reaches nestingLimit) Grammar.declaration
  have stops := fun t : State =>
    Rule.runItems_stops .atEnd .topLevel reaches (Nat.lt_succ_self t.rest.length)
  obtain ⟨t, ran, atEnd⟩ : ∃ t, Grammar.program.runWhole s = .ok t ∧
      (Look.atEnd.holds t.rest = true ∨ t.rest = []) := by
    simp only [Rule.runWhole, Grammar.program, Rule.inOrder, Rule.optional, Rule.terminators, Rule.run]
    by_cases word : (Look.keyword .imports).holds (s.takeWhile .terminator).rest = true
    · simp only [Outcome.andThen, word, if_true]
      exact ⟨_, rfl, stops _⟩
    · simp only [Outcome.andThen, word]
      exact ⟨_, rfl, stops _⟩
  refine ⟨t, ran, ?_⟩
  obtain ends | none := atEnd
  · have reached := Grammar.program.runWhole_reaches s
    rw [ran] at reached
    obtain ⟨-, taken, -, rest, -⟩ := State.Steps.advances reached
    cases ahead : t.rest with
    | nil => rfl
    | cons u more =>
        rw [ahead] at ends rest
        exact absurd (by simpa [Look.atEnd, kindAhead] using ends) (proper u (by simp [rest]))
  · exact none

variable {broken : Prop}

theorem fragment_reads (broken : Prop) (category : Category) {s : State}
    (root : s.builder.below = []) (pending : s.builder.top.pending = none) :
    (ok (State.finish ((Rule.inOrder [.terminators, .nested category]).runWhole s))).Reads broken
      (.fragment category) s := by
  have terminators : (ok (s.takeWhile .terminator)).Reads broken .terminators s :=
    Rule.takeWhile_reads Rule.holds_terminator (by decide) pending
  have finished : (s.takeWhile .terminator).builder.top.pending = none →
      (ok (State.finish (enterCategory nestingLimit category (s.takeWhile .terminator)))).Reads broken
        (.inOrder [.attempt (category.form none), .terminators, .optional .skipped])
        (s.takeWhile .terminator) := by
    intro idle
    have reads := enterCategory_reads broken nestingLimit category (s.takeWhile .terminator)
    rw [idle] at reads
    exact State.finish_reads reads ((State.below_takeWhile _ _).trans root)
  refine terminators.after finished (fun u ended faulty => ?_)
    (fun parts => Form.Unfinished.seq_left (by cases category <;> decide))
    fun left right _ hl hr => ⟨left, right, rfl, hl, hr⟩
  cases ended
  exact faulty.mono (State.finish_steps (enterCategory_reaches _ category _))

theorem parseStream_reads (broken : Prop) (entry : Entry) (stream : TokenStream) :
    (ok (parseStream entry stream)).Reads broken entry.body (State.initial entry.rootKind stream) := by
  cases entry with
  | type => exact fragment_reads broken .type rfl rfl
  | expression => exact fragment_reads broken .expression rfl rfl
  | program =>
      intro proper
      change (State.initial .program stream).Proper at proper
      obtain ⟨t, ran, ended⟩ := program_ends proper
      have realizes : Realizes .program true anywhere none Grammar.program .program _ :=
        Grammar.program_realizes
      have reads : (Grammar.program.runWhole (State.initial .program stream)).Reads broken .program
          (State.initial .program stream) :=
        realizes.reads (enterCategory_reaches nestingLimit)
          (enterCategory_reads broken nestingLimit) trivial rfl
      have finished : parseStream .program stream = t.closeToRoot := by
        change State.finish (Grammar.program.runWhole (State.initial .program stream)) = _
        rw [ran, State.finish_of_rest_nil ended]
      rw [finished]
      intro clean
      rw [ran] at reads
      obtain ⟨parts, builds, sentence⟩ := reads proper clean
      have closed := builds.trans ⟨t.closedTo_grows, fun _ => trivial⟩
      rw [builds.depth_eq, List.append_nil] at closed
      exact ⟨parts, closed, sentence⟩

structure TreeOf (broken : Prop) (entry : Entry) (tokens : List Token) (root : Node)
    (parts : List Part) : Prop where
  tree : .node root = (Part.node none entry.rootKind true parts).toChild
  tokens : tokensOf parts = tokens
  sentence : entry.form.Sentence broken parts .endOfInput
  licensed : ∀ depth, LicensedAll (Shape broken) depth parts .endOfInput

theorem root_of_grows {entry : Entry} {stream : TokenStream} {parts : List Part}
    (grows : (State.initial entry.rootKind stream).Grows (parseStream entry stream) parts) :
    .node (parseStream entry stream).root =
      (Part.node none entry.rootKind true (parts ++ [.token none stream.endOfInput])).toChild := by
  have shown : (parseStream entry stream).builder.top.Shows parts :=
    grows.builder.shows [] (OpenNode.empty_shows _ _)
  let last : Part := .token none stream.endOfInput
  have added : ((parseStream entry stream).builder.top.add last.toChild).Shows (parts ++ [last]) :=
    shown.add grows.pending.symm
  have kind : ((parseStream entry stream).builder.top.add last.toChild).kind = entry.rootKind :=
    (OpenNode.kind_add _ _).1.trans grows.builder.kind
  rw [State.root, show (parseStream entry stream).endOfInput = stream.endOfInput from grows.endOfInput,
    ← kind]
  exact added.toChild (by simp) none true

theorem parseStream_tree (entry : Entry) (stream : TokenStream)
    (proper : ∀ t ∈ stream.tokens, t.kind ≠ .endOfInput)
    (ends : stream.endOfInput.kind = .endOfInput)
    (clean : (parseStream entry stream).Faulty → broken) :
    ∃ parts, TreeOf broken entry stream.toList (parseStream entry stream).root parts ∧
      errorsOf parts = (parseStream entry stream).lexicalErrors := by
  obtain ⟨parts, builds, sentence⟩ := parseStream_reads broken entry stream proper clean
  have nothing : (parseStream entry stream).rest = [] := (State.finish_ends _).1
  let last : Part := .token none stream.endOfInput
  have tokens : stream.tokens = tokensOf parts := by
    have rest := builds.rest
    rw [nothing, List.append_nil] at rest
    exact rest
  rw [nothing] at sentence
  refine ⟨parts ++ [last], ⟨root_of_grows builds.toGrows, ?_, ?_, fun depth => ?_⟩, ?_⟩
  · rw [tokensOf_append, ← tokens]
    rfl
  · refine ⟨parts, [last], rfl, ?_, Form.sentence_token.mpr ⟨_, rfl, ends⟩⟩
    rw [show firstKind [last] .endOfInput = .endOfInput from ends]
    exact sentence
  · have licensed := builds.licensed depth
    rw [nothing] at licensed
    refine licensedAll_append.mpr ⟨?_, trivial, trivial⟩
    rw [show firstKind [last] .endOfInput = .endOfInput from ends]
    exact licensed
  · rw [errorsOf_append, builds.lexical]
    simp [errorsOf, last, Part.errors, State.lexicalErrors, State.initial]

theorem parseStream_ofText_tree (broken : Prop) (entry : Entry) (cs : List Char)
    (clean : (parseStream entry (TokenStream.ofText cs)).Faulty → broken) :
    ∃ parts, TreeOf broken entry (TokenStream.ofText cs).toList
        (parseStream entry (TokenStream.ofText cs)).root parts ∧
      errorsOf parts = (parseStream entry (TokenStream.ofText cs)).lexicalErrors :=
  parseStream_tree entry _ (fun _ mem => (TokenStream.token_origin mem).1) rfl clean

theorem TreeOf.kind_eq {entry : Entry} {tokens : List Token} {root : Node} {parts : List Part}
    (tree : TreeOf broken entry tokens root parts) : root.kind = entry.rootKind := by
  rw [Child.node.inj tree.tree]
  rfl

end UmkaSyntax
