import UmkaSyntax.Proofs.Lexing.Origin
import UmkaSyntax.Proofs.Parsing.Unbounded

namespace UmkaSyntax

open State

structure Rule.Loop where
  stop : Look
  sync : SyncSet
  item : Rule

namespace Rule

def loops : Rule → List Loop
  | seq first second => first.loops ++ second.loops
  | branch _ yes no => yes.loops ++ no.loops
  | node _ body | wrapLast _ body => body.loops
  | separated _ item before after => item.loops ++ before.loops ++ after.loops
  | recovering _ item => item.loops
  | items stop sync item => ⟨stop, sync, item⟩ :: item.loops
  | _ => []

theorem itemMoves_of_mem_loops {rule : Rule} (moves : rule.moves = true) {loop : Loop}
    (mem : loop ∈ rule.loops) : itemMoves loop.stop loop.sync loop.item = true := by
  induction rule with
  | done | fail | report | announce | take | takeKeyword | takeWhile | literal => cases mem
  | label | labelNext | retag | nested => cases mem
  | seq first second ih₁ ih₂ =>
      simp only [Rule.moves, Bool.and_eq_true] at moves
      exact (List.mem_append.mp mem).elim (ih₁ moves.1) (ih₂ moves.2)
  | branch look yes no ih₁ ih₂ =>
      simp only [Rule.moves, Bool.and_eq_true] at moves
      exact (List.mem_append.mp mem).elim (ih₁ moves.1) (ih₂ moves.2)
  | node kind body ih => exact ih moves mem
  | wrapLast kind body ih => exact ih moves mem
  | separated go item before after ih₁ ih₂ ih₃ =>
      simp only [Rule.moves, Bool.and_eq_true] at moves
      simp only [loops, List.mem_append] at mem
      obtain (mem | mem) | mem := mem
      · exact ih₁ moves.1.1 mem
      · exact ih₂ moves.1.2 mem
      · exact ih₃ moves.2 mem
  | recovering sync item ih => exact ih moves mem
  | items stop sync item ih =>
      simp only [Rule.moves, Bool.and_eq_true] at moves
      obtain rfl | mem := List.mem_cons.mp mem
      · exact moves.1
      · exact ih moves.2 mem

end Rule

def Grammar.rules : List Rule :=
  [Entry.program, .type, .expression].map Entry.rule ++
    [Category.type, .expression, .block].map categoryRule

theorem Grammar.rules_move {rule : Rule} (mem : rule ∈ rules) : rule.moves = true := by
  obtain mem | mem := List.mem_append.mp mem
  · obtain ⟨entry, -, rfl⟩ := List.mem_map.mp mem
    exact entry.rule_moves
  · obtain ⟨category, -, rfl⟩ := List.mem_map.mp mem
    exact (categoryRule_moves category).1

namespace State

def Smooth (s : State) : Prop := ∀ offset, Event.stuck offset ∉ s.log

theorem Smooth.of_log {s t : State} (smooth : s.Smooth) (same : t.log = s.log) : t.Smooth := by
  rwa [Smooth, same]

theorem Smooth.note {s : State} (smooth : s.Smooth) {event : Event}
    (other : ∀ offset, Event.stuck offset ≠ event) : (s.note event).Smooth := by
  intro offset mem
  exact (Array.mem_push.mp mem).elim (smooth offset) (other offset)

theorem log_takeAs (f : Token → Token) (s : State) : (s.takeAs f).log = s.log := by
  unfold takeAs
  split <;> rfl

theorem log_takeLiteral (kind : NodeKind) (flavor : Flavor) (s : State) :
    (s.takeLiteral kind flavor).log = s.log := by
  unfold takeLiteral
  split <;> rfl

theorem log_discard (count : Nat) (s : State) : (s.discard count).log = s.log := by
  unfold discard
  dsimp only
  split <;> rfl

theorem log_takeUpTo (look : Look) (count : Nat) (s : State) : (takeUpTo look count s).log = s.log := by
  induction count generalizing s with
  | zero => rfl
  | succ count ih =>
      rw [takeUpTo]
      split
      · rw [ih, take, log_takeAs]
      · rfl

theorem Smooth.recover {s : State} (smooth : s.Smooth) (e : SyntaxError) (depth : Nat)
    (sync : SyncSet) : (s.recover e depth sync).Smooth := by
  simp only [State.recover]
  split
  · exact smooth.of_log (log_discard _ _)
  · refine Smooth.note ?_ (fun _ same => by cases same)
    exact smooth.of_log (log_discard _ _)

end State

namespace Outcome

theorem smooth_closed {outcome : Outcome} (smooth : outcome.final.Smooth) :
    (outcome.andThen fun s => .ok (s.onBuilder Builder.close)).final.Smooth := by
  cases outcome with
  | ok s => exact smooth
  | failed e s => exact smooth

theorem smooth_recovered {outcome : Outcome} (smooth : outcome.final.Smooth) (depth : Nat)
    (sync : SyncSet) : (outcome.recovered depth sync).Smooth := by
  cases outcome with
  | ok s => exact smooth
  | failed e s => exact smooth.recover e depth sync

end Outcome

theorem Rule.Ends.smooth {rule : Rule} {s : State} {outcome : Outcome} (ends : Ends rule s outcome)
    (smooth : s.Smooth) : outcome.final.Smooth := by
  induction ends with
  | done | fail | report | takeWhileStop | label | labelNext | retag | tooDeep | noItem =>
      exact smooth
  | announce => exact smooth.note (by simp)
  | take => exact smooth.of_log (log_takeAs _ _)
  | takeKeyword => exact smooth.of_log (log_takeAs _ _)
  | literal => exact smooth.of_log (log_takeLiteral _ _ _)
  | takeWhileMore _ _ _ ih => exact ih (smooth.of_log (log_takeAs _ _))
  | seq _ _ ih₁ ih₂ => exact ih₂ (ih₁ smooth)
  | seqFailed _ ih => exact ih smooth
  | yes _ _ ih => exact ih smooth
  | no _ _ ih => exact ih smooth
  | node _ ih => exact Outcome.smooth_closed (ih smooth)
  | wrapLast _ ih => exact Outcome.smooth_closed (ih smooth)
  | nested _ _ ih => exact ih smooth
  | itemFailed _ _ ih => exact ih smooth
  | lastItem _ _ _ ih => exact ih smooth
  | gapFailed _ _ _ _ ih₁ ih₂ => exact ih₂ ((ih₁ smooth).of_log (log_takeAs _ _))
  | nextItem _ _ _ _ _ _ ih₁ ih₂ ih₃ => exact ih₃ (ih₂ ((ih₁ smooth).of_log (log_takeAs _ _)))
  | recovering _ ih => exact Outcome.smooth_recovered (ih smooth) _ _
  | noMoreItems _ _ ih => exact ih smooth
  | moreItems _ _ _ _ _ ih₁ ih₂ ih₃ => exact ih₃ (ih₂ (ih₁ smooth))

theorem State.Smooth.finish {outcome : Outcome} (smooth : outcome.final.Smooth) :
    (State.finish outcome).Smooth := by
  cases outcome with
  | ok s =>
      refine smooth.of_log ((log_discard _ _).trans ?_)
      refine Eq.trans ?_ (log_takeUpTo .terminator s.closeToRoot.rest.length s.closeToRoot)
      split <;> rfl
  | failed e s => exact smooth.of_log ((log_discard _ _).trans (log_takeUpTo .terminator _ _))

theorem State.initial_proper (entry : Entry) (source : String) :
    (State.initial entry.rootKind (TokenStream.ofText source.toList)).Proper :=
  fun _ mem => (TokenStream.token_origin mem).1

theorem parse_smooth (entry : Entry) (maxErrors : Nat) (source : String) (offset : Nat) :
    Event.stuck offset ∉ (parse entry maxErrors source).log := by
  have ends := Rule.runWhole_ends entry.rule_moves (initial_proper entry source)
  have fresh : (State.initial entry.rootKind (TokenStream.ofText source.toList)).Smooth :=
    fun offset => by simp [State.initial]
  have ran := (ends.smooth fresh).finish offset
  have announced : Event.stuck offset ∉ entry.announcement source.utf8ByteSize := by
    cases entry <;> simp [Entry.announcement]
  have other : ∀ count, Event.stuck offset ∉
      if count = 0 then [] else [Event.dropped count maxErrors] := by
    intro count
    split <;> simp
  simp only [parse, parseStream, List.mem_append, List.mem_singleton, Array.mem_toList_iff]
  rintro ((((lexed | announced') | ran') | dropped))
  · cases lexed
  · exact announced announced'
  · exact ran ran'
  · exact other _ dropped

/-- Every parse ends without its bounds and without its net: the run of its rule is a derivation in
which loops are not counted and each further round stands on fewer tokens. Every loop over items
takes a token whenever it runs one, recovery skips a token unless it may resume where it stands, and
a list goes on only behind a comma that it took. Nothing but the front of the tokens is ever taken,
and in the end none is left. -/
theorem parse_progresses :
    (∀ (entry : Entry) (maxErrors : Nat) (source : String),
      let start := State.initial entry.rootKind (TokenStream.ofText source.toList)
      let last := parseStream entry (TokenStream.ofText source.toList)
      Rule.Ends entry.rule start (entry.rule.runWhole start) ∧
      (∀ offset, Event.stuck offset ∉ (parse entry maxErrors source).log) ∧
      Steps start last ∧ last.rest = []) ∧
    (∀ rule ∈ Grammar.rules, ∀ loop ∈ rule.loops, ∀ (levels : Nat) (s : State),
      Rule.RunsItem loop.stop s.rest →
      ((loop.item.run (enterCategory levels) s).recovered s.depth loop.sync).rest.length <
        s.rest.length) ∧
    (∀ (e : SyntaxError) (depth : Nat) (sync : SyncSet) (s : State),
      let resumed := s.recover e depth sync
      resumed.rest <:+ s.rest ∧ (resumed.rest = [] ∨ sync.look.holds resumed.rest = true) ∧
      (resumed.rest = s.rest → s.rest = [] ∨ sync.look.holds s.rest = true)) ∧
    (∀ (item before after : Rule) (levels : Nat) (s t u : State),
      (Rule.seq item before).run (enterCategory levels) s = .ok t →
      (Look.punct .comma).holds t.rest = true → after.run (enterCategory levels) t.take = .ok u →
      u.rest.length < s.rest.length) ∧
    ∀ s t : State, Step s t → t.rest <:+ s.rest ∧ t.endOfInput = s.endOfInput := by
  refine ⟨fun entry maxErrors source => ⟨?_, ?_, ?_, ?_⟩, ?_, ?_, ?_, ?_⟩
  · exact Rule.runWhole_ends entry.rule_moves (initial_proper entry source)
  · exact parse_smooth entry maxErrors source
  · exact parseStream_steps entry _
  · exact (State.finish_ends _).1
  · intro rule mem loop inside levels s runs
    exact Rule.item_shorter (Rule.itemMoves_of_mem_loops (Grammar.rules_move mem) inside)
      (enterCategory_reaches levels) (enterCategory_takes levels) runs
  · intro e depth sync s resumed
    have rest : resumed.rest = _ := rest_recover e depth sync s
    rw [rest]
    refine ⟨List.drop_suffix _ _, skipLength_stops _ _ _, fun same => ?_⟩
    have stops := skipLength_stops sync.look 0 s.rest
    rwa [same] at stops
  · intro item before after levels s t u first comma second
    have reaches := Rule.run_reaches (enterCategory_reaches levels)
    have ahead := List.length_pos_iff.mpr (Look.ne_nil_of_needsToken rfl comma)
    have le := (reaches _ s).length_le first
    have fewer := (reaches _ t.take).length_le second
    rw [State.take, rest_takeAs, List.length_tail] at fewer
    omega
  · intro s t step
    exact ⟨step.steps.advances.rest_suffix, step.steps.advances.1⟩

end UmkaSyntax
