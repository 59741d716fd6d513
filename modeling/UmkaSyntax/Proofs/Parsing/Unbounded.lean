import UmkaSyntax.Proofs.Parsing.Liveness
import UmkaSyntax.Proofs.Parsing.Shape

/-!
The grammar without bounds. A run counts the rounds of its loops and the levels of its nesting, and
skips a token where an item took none. The relation of this module does none of that: its loops end
at a test only, its nesting at the limit on open nodes only, and each further round stands on fewer
tokens. Runs of the grammar are derivations of the relation, so no bound is ever met.
-/

namespace UmkaSyntax

open State

namespace Rule

/-- The rule, begun in a state, ends with an outcome. -/
inductive Ends : Rule → State → Outcome → Prop
  | done {s} : Ends .done s (.ok s)
  | seq {first second s t outcome} (before : Ends first s (.ok t))
      (after : Ends second t outcome) : Ends (.seq first second) s outcome
  | seqFailed {first second s e t} (before : Ends first s (.failed e t)) :
      Ends (.seq first second) s (.failed e t)
  | yes {look yes no s outcome} (holds : look.holds s.rest = true) (run : Ends yes s outcome) :
      Ends (.branch look yes no) s outcome
  | no {look yes no s outcome} (fails : look.holds s.rest = false) (run : Ends no s outcome) :
      Ends (.branch look yes no) s outcome
  | fail {issue s} : Ends (.fail issue) s (.failed (s.errorHere issue) s)
  | report {issue s} : Ends (.report issue) s (.ok (s.record (.syntactic (s.errorHere issue))))
  | announce {s} : Ends .announce s (.ok (s.note (.declaration s.offset)))
  | take {s} : Ends .take s (.ok s.take)
  | takeKeyword {s} : Ends .takeKeyword s (.ok (s.takeAs asKeyword))
  | takeWhileStop {look s} (stops : look.holds s.rest = false ∨ s.rest = []) :
      Ends (.takeWhile look) s (.ok s)
  | takeWhileMore {look s outcome} (holds : look.holds s.rest = true) (ahead : s.rest ≠ [])
      (more : Ends (.takeWhile look) s.take outcome) : Ends (.takeWhile look) s outcome
  | literal {kind flavor s} : Ends (.literal kind flavor) s (.ok (s.takeLiteral kind flavor))
  | label {field s} :
      Ends (.label field) s (.ok (s.onBuilder (Builder.mapTop (OpenNode.nameLast field))))
  | labelNext {field s} : Ends (.labelNext field) s
      (.ok (s.onBuilder (Builder.mapTop fun n => { n with pending := some field })))
  | retag {kind s} :
      Ends (.retag kind) s (.ok (s.onBuilder (Builder.mapTop fun n => { n with kind := kind })))
  | node {kind body s outcome} (run : Ends body (s.onBuilder (Builder.startNode kind s.offset)) outcome) :
      Ends (.node kind body) s (outcome.andThen fun t => .ok (t.onBuilder Builder.close))
  | wrapLast {kind body s outcome}
      (run : Ends body (s.onBuilder (Builder.startAroundLast kind s.offset)) outcome) :
      Ends (.wrapLast kind body) s (outcome.andThen fun t => .ok (t.onBuilder Builder.close))
  | tooDeep {category s} (limit : nestingLimit ≤ s.depth) :
      Ends (.nested category) s (.failed (s.errorHere .tooDeep) s)
  | nested {category s outcome} (room : s.depth < nestingLimit)
      (run : Ends (Grammar.categoryRule category) s outcome) : Ends (.nested category) s outcome
  | noItem {go item before after s} (stops : go.holds s.rest = false) :
      Ends (.separated go item before after) s (.ok s)
  | itemFailed {go item before after s e t} (goes : go.holds s.rest = true)
      (failed : Ends (.seq item before) s (.failed e t)) :
      Ends (.separated go item before after) s (.failed e t)
  | lastItem {go item before after s t} (goes : go.holds s.rest = true)
      (run : Ends (.seq item before) s (.ok t)) (last : (Look.punct .comma).holds t.rest = false) :
      Ends (.separated go item before after) s (.ok t)
  | gapFailed {go item before after s e t u} (goes : go.holds s.rest = true)
      (run : Ends (.seq item before) s (.ok t)) (comma : (Look.punct .comma).holds t.rest = true)
      (failed : Ends after t.take (.failed e u)) :
      Ends (.separated go item before after) s (.failed e u)
  | nextItem {go item before after s t u outcome} (goes : go.holds s.rest = true)
      (run : Ends (.seq item before) s (.ok t)) (comma : (Look.punct .comma).holds t.rest = true)
      (gap : Ends after t.take (.ok u)) (shorter : u.rest.length < s.rest.length)
      (more : Ends (.separated go item before after) u outcome) :
      Ends (.separated go item before after) s outcome
  | recovering {sync item s outcome} (run : Ends item s outcome) :
      Ends (.recovering sync item) s (.ok (outcome.recovered s.depth sync))
  | noMoreItems {stop sync item s t} (gap : Ends terminators s (.ok t))
      (stops : stop.holds t.rest = true ∨ t.rest = []) : Ends (.items stop sync item) s (.ok t)
  | moreItems {stop sync item s t u outcome} (gap : Ends terminators s (.ok t))
      (goes : stop.holds t.rest = false) (run : Ends (.recovering sync item) t (.ok u))
      (shorter : u.rest.length < t.rest.length) (more : Ends (.items stop sync item) u outcome) :
      Ends (.items stop sync item) s outcome

theorem Ends.andThen {first second : Rule} {s : State} {outcome : Outcome} {next : State → Outcome}
    (before : Ends first s outcome) (after : ∀ t, outcome = .ok t → Ends second t (next t)) :
    Ends (.seq first second) s (outcome.andThen next) := by
  cases outcome with
  | ok t => exact .seq before (after t rfl)
  | failed e t => exact .seqFailed before

theorem takeWhile_ends (look : Look) (s : State) :
    Ends (.takeWhile look) s (.ok (s.takeWhile look)) := by
  suffices counted : ∀ count s, s.rest.length ≤ count →
      Ends (.takeWhile look) s (.ok (takeUpTo look count s)) from counted _ s (Nat.le_refl _)
  intro count
  induction count with
  | zero => exact fun s none => .takeWhileStop (.inr (List.length_eq_zero_iff.mp (Nat.le_zero.mp none)))
  | succ count ih =>
      intro s enough
      rw [takeUpTo]
      split
      · rename_i holds
        by_cases none : s.rest = []
        · have same : s.take = s := by rw [State.take, takeAs, none]
          have rest := ih s (by simp [none])
          rw [same]
          exact rest
        · refine .takeWhileMore holds none (ih _ ?_)
          rw [State.take, rest_takeAs, List.length_tail]
          omega
      · rename_i fails
        exact .takeWhileStop (.inl (Bool.eq_false_iff.mpr fails))

section
variable {levels floor : Nat}

/-- A state from which the bounds of a run are out of reach. Other categories are entered only from
inside of a node that the rule has opened. -/
structure Roomy (floor : Nat) (inside : Bool) (s : State) : Prop where
  proper : s.Proper
  floor_le : floor ≤ s.depth
  floor_lt : inside = true → floor < s.depth

theorem Roomy.of_steps {inside : Bool} {s t : State} (roomy : Roomy floor inside s)
    (steps : Steps s t) (same : t.builder.below = s.builder.below) : Roomy floor inside t := by
  have depth : t.depth = s.depth := by
    rw [State.depth, State.depth, Builder.depth, same, Builder.depth]
  refine ⟨fun token mem => roomy.proper token (steps.advances.rest_suffix.subset mem), ?_, ?_⟩
  · exact depth ▸ roomy.floor_le
  · exact depth ▸ roomy.floor_lt

theorem Roomy.opened {inside : Bool} {s : State} (roomy : Roomy floor inside s)
    {open' : Builder → Builder} (opens : (open' s.builder).below.length = s.builder.below.length + 1) :
    Roomy floor true (s.onBuilder open') := by
  have depth : (s.onBuilder open').depth = s.depth + 1 := congrArg (· + 1) opens
  refine ⟨roomy.proper, ?_, fun _ => ?_⟩
  · exact depth ▸ Nat.le_succ_of_le roomy.floor_le
  · exact depth ▸ Nat.lt_succ_of_le roomy.floor_le

theorem Roomy.of_ok {inside : Bool} {s t : State} {rule : Rule} (roomy : Roomy floor inside s)
    (ended : rule.run (enterCategory levels) s = .ok t) : Roomy floor inside t := by
  have reached := run_reaches (enterCategory_reaches levels) rule s
  have kept := run_keeps (enterCategory_keeps levels) rule s
  rw [ended] at reached kept
  exact roomy.of_steps reached kept

def Agrees (levels floor : Nat) (inside : Bool) (rule : Rule) : Prop :=
  ∀ s, Roomy floor inside s → Ends rule s (rule.run (enterCategory levels) s)

theorem Agrees.seq {inside : Bool} {first second : Rule} (before : Agrees levels floor inside first)
    (after : Agrees levels floor inside second) : Agrees levels floor inside (.seq first second) :=
  fun s roomy => (before s roomy).andThen fun t ended => after t (roomy.of_ok ended)

theorem runSeparated_ends {inside : Bool} {go : Look} {item before after : Rule}
    (round : Agrees levels floor inside (.seq item before)) (gap : Agrees levels floor inside after)
    {rounds : Nat} {s : State} (roomy : Roomy floor inside s) (enough : s.rest.length < rounds) :
    Ends (.separated go item before after) s
      (runSeparated go (item.run (enterCategory levels)) (before.run (enterCategory levels))
        (after.run (enterCategory levels)) rounds s) := by
  induction rounds generalizing s with
  | zero => exact absurd enough (Nat.not_lt_zero _)
  | succ rounds ih =>
      have reaches := run_reaches (enterCategory_reaches levels)
      -- The two rules of a round are one rule, after which the comma decides.
      have assoc : ∀ next : State → Outcome,
          ((item.run (enterCategory levels) s).andThen fun t =>
            (before.run (enterCategory levels) t).andThen next) =
            ((Rule.seq item before).run (enterCategory levels) s).andThen next := by
        intro next
        rw [run]
        cases item.run (enterCategory levels) s <;> rfl
      rw [runSeparated]
      split
      · rename_i goes
        have derived := round s roomy
        rw [assoc]
        cases ended : (Rule.seq item before).run (enterCategory levels) s with
        | failed e t => exact .itemFailed goes (ended ▸ derived)
        | ok t =>
            rw [ended] at derived
            have le : t.rest.length ≤ s.rest.length := (reaches _ s).length_le ended
            rw [Outcome.andThen]
            split
            · rename_i comma
              have ahead := List.length_pos_iff.mpr (Look.ne_nil_of_needsToken rfl comma)
              have tail : t.take.rest.length = t.rest.length - 1 := by
                rw [State.take, rest_takeAs, List.length_tail]
              have behind : Roomy floor inside t.take :=
                (roomy.of_ok ended).of_steps (Step.take t).steps (below_takeAs id t)
              have gapDerived := gap t.take behind
              cases gapEnded : after.run (enterCategory levels) t.take with
              | failed e u => exact .gapFailed goes derived comma (gapEnded ▸ gapDerived)
              | ok u =>
                  rw [gapEnded] at gapDerived
                  have fewer : u.rest.length ≤ t.take.rest.length :=
                    (reaches _ _).length_le gapEnded
                  exact .nextItem goes derived comma gapDerived (by omega)
                    (ih (behind.of_ok gapEnded) (by omega))
            · rename_i last
              exact .lastItem goes derived (Bool.eq_false_iff.mpr last)
      · rename_i stops
        exact .noItem (Bool.eq_false_iff.mpr stops)

theorem runItems_ends {inside : Bool} {stop : Look} {sync : SyncSet} {item : Rule}
    (moves : itemMoves stop sync item = true) (body : Agrees levels floor inside item)
    {rounds : Nat} {s : State} (roomy : Roomy floor inside s) (enough : s.rest.length < rounds) :
    Ends (.items stop sync item) s
      (.ok (runItems stop sync (item.run (enterCategory levels)) rounds s)) := by
  induction rounds generalizing s with
  | zero => exact absurd enough (Nat.not_lt_zero _)
  | succ rounds ih =>
      have gap := takeWhile_ends .terminator s
      have steps := takeWhile_steps .terminator s
      have le := steps.advances.rest_length_le
      have here : Roomy floor inside (s.takeWhile .terminator) :=
        roomy.of_steps steps (below_takeWhile .terminator s)
      have noTerminator := takeUpTo_stops .terminator (Nat.le_refl s.rest.length)
      change _ ∨ (s.takeWhile .terminator).rest = [] at noTerminator
      change Look.terminator.holds (s.takeWhile .terminator).rest = false ∨ _ at noTerminator
      rw [runItems_succ]
      generalize s.takeWhile .terminator = t at *
      -- Behind the terminators an item takes a token, so the net that catches a round without
      -- progress is not needed.
      by_cases ends : (stop.holds t.rest || t.rest.isEmpty) = true
      · rw [if_pos ends]
        exact .noMoreItems gap (by simpa using ends)
      · rw [if_neg ends]
        simp only [Bool.or_eq_true, List.isEmpty_iff, not_or, Bool.not_eq_true] at ends
        obtain ⟨goes, ahead⟩ := ends
        have runs : RunsItem stop t.rest := by
          refine ⟨?_, noTerminator.resolve_right ahead, goes⟩
          obtain ⟨token, more, eq⟩ := List.exists_cons_of_ne_nil ahead
          have own := here.proper token (by simp [eq])
          rwa [eq]
        have shorter := item_shorter moves (enterCategory_reaches levels)
          (enterCategory_takes levels) runs
        have same : itemRound sync (item.run (enterCategory levels)) t =
            (item.run (enterCategory levels) t).recovered t.depth sync :=
          if_neg (Nat.ne_of_lt shorter)
        rw [same]
        refine .moreItems gap goes (.recovering (body t here)) shorter (ih ?_ (by omega))
        refine here.of_steps ((run_reaches (enterCategory_reaches levels) item t).recovered _ sync) ?_
        exact (run_keeps (enterCategory_keeps levels) item t).below_recovered sync

theorem run_agrees (enters : ∀ category, Agrees levels floor true (.nested category)) {inside : Bool}
    (rule : Rule) (moves : rule.moves = true) (nests : rule.nestsInside inside = true) :
    Agrees levels floor inside rule := by
  induction rule generalizing inside with
  | done => exact fun s _ => .done
  | fail => exact fun s _ => .fail
  | report => exact fun s _ => .report
  | announce => exact fun s _ => .announce
  | take => exact fun s _ => .take
  | takeKeyword => exact fun s _ => .takeKeyword
  | takeWhile look => exact fun s _ => takeWhile_ends look s
  | literal => exact fun s _ => .literal
  | label => exact fun s _ => .label
  | labelNext => exact fun s _ => .labelNext
  | retag => exact fun s _ => .retag
  | nested category => exact fun s roomy => enters category s (nests ▸ roomy)
  | seq first second ih₁ ih₂ =>
      simp only [Rule.moves, nestsInside, Bool.and_eq_true] at moves nests
      exact (ih₁ moves.1 nests.1).seq (ih₂ moves.2 nests.2)
  | branch look yes no ih₁ ih₂ =>
      simp only [Rule.moves, nestsInside, Bool.and_eq_true] at moves nests
      intro s roomy
      rw [run]
      split
      · rename_i holds
        exact .yes holds (ih₁ moves.1 nests.1 s roomy)
      · rename_i fails
        exact .no (Bool.eq_false_iff.mpr fails) (ih₂ moves.2 nests.2 s roomy)
  | node kind body ih => exact fun s roomy => .node (ih moves nests _ (roomy.opened rfl))
  | wrapLast kind body ih => exact fun s roomy => .wrapLast (ih moves nests _ (roomy.opened rfl))
  | separated go item before after ih₁ ih₂ ih₃ =>
      simp only [Rule.moves, nestsInside, Bool.and_eq_true] at moves nests
      exact fun s roomy => runSeparated_ends
        ((ih₁ moves.1.1 nests.1.1).seq (ih₂ moves.1.2 nests.1.2)) (ih₃ moves.2 nests.2) roomy
        (Nat.lt_succ_self _)
  | recovering sync item ih => exact fun s roomy => .recovering (ih moves nests s roomy)
  | items stop sync item ih =>
      simp only [Rule.moves, Bool.and_eq_true] at moves
      exact fun s roomy => runItems_ends moves.1 (ih moves.2 nests) roomy (Nat.lt_succ_self _)

end

end Rule

open Rule

/-- Each level opens a node, so the limit on open nodes is met before the levels run out. -/
theorem enterCategory_ends {levels : Nat} {category : Category} {s : State} (proper : s.Proper)
    (enough : nestingLimit ≤ s.depth + levels) :
    Ends (.nested category) s (enterCategory levels category s) := by
  induction levels generalizing category s with
  | zero => exact .tooDeep enough
  | succ levels ih =>
      rw [enterCategory]
      split
      · rename_i limit
        exact .tooDeep limit
      · rename_i room
        obtain ⟨moves, nests⟩ := Grammar.categoryRule_moves category
        have enters : ∀ category, Agrees levels s.depth true (.nested category) := by
          intro category t roomy
          have deeper := roomy.floor_lt rfl
          exact ih roomy.proper (by omega)
        exact .nested (Nat.lt_of_not_le room)
          (run_agrees enters _ moves nests s ⟨proper, Nat.le_refl _, by simp⟩)

theorem Rule.nestsInside_true (rule : Rule) : rule.nestsInside true = true := by
  induction rule with
  | done | fail | report | announce | take | takeKeyword | takeWhile | literal => rfl
  | label | labelNext | retag | nested => rfl
  | seq first second ih₁ ih₂ => rw [nestsInside, ih₁, ih₂, Bool.and_true]
  | branch look yes no ih₁ ih₂ => rw [nestsInside, ih₁, ih₂, Bool.and_true]
  | node kind body ih => exact ih
  | wrapLast kind body ih => exact ih
  | separated go item before after ih₁ ih₂ ih₃ =>
      rw [nestsInside, ih₁, ih₂, ih₃, Bool.and_true, Bool.and_true]
  | recovering sync item ih => exact ih
  | items stop sync item ih => exact ih

theorem Rule.runWhole_ends {rule : Rule} (moves : rule.moves = true) {s : State} (proper : s.Proper) :
    Ends rule s (rule.runWhole s) := by
  have enters : ∀ category, Agrees nestingLimit 0 true (.nested category) :=
    fun category t roomy => enterCategory_ends roomy.proper (Nat.le_add_left _ _)
  exact run_agrees enters rule moves rule.nestsInside_true s
    ⟨proper, Nat.zero_le _, fun _ => Nat.succ_pos _⟩

end UmkaSyntax
