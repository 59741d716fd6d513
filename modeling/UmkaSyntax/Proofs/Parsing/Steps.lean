import Mathlib.Logic.Relation
import UmkaSyntax.Parsing.Parse

namespace UmkaSyntax

namespace State

inductive Step : State → State → Prop
  | take (s : State) : Step s s.take
  | takeKeyword (s : State) : Step s (s.takeAs asKeyword)
  | takeLiteral (s : State) (kind : NodeKind) (flavor : Flavor) : Step s (s.takeLiteral kind flavor)
  | discard (s : State) (count : Nat) : Step s (s.discard count)
  | record (s : State) (issue : SyntaxIssue) : Step s (s.record (.syntactic (s.errorHere issue)))
  | note (s : State) (event : Event) : Step s (s.note event)
  | nameLast (s : State) (field : FieldName) :
      Step s (s.onBuilder (Builder.mapTop (OpenNode.nameLast field)))
  | nameNext (s : State) (field : FieldName) :
      Step s (s.onBuilder (Builder.mapTop fun n => { n with pending := some field }))
  | retag (s : State) (kind : NodeKind) :
      Step s (s.onBuilder (Builder.mapTop fun n => { n with kind := kind }))
  | startNode (s : State) (kind : NodeKind) : Step s (s.onBuilder (Builder.startNode kind s.offset))
  | startAroundLast (s : State) (kind : NodeKind) :
      Step s (s.onBuilder (Builder.startAroundLast kind s.offset))
  | close (s : State) : Step s (s.onBuilder Builder.close)
  | closeTo (s : State) (depth : Nat) : Step s (s.onBuilder (Builder.closeTo depth))

abbrev Steps : State → State → Prop := Relation.ReflTransGen Step

theorem Step.steps {s t : State} (step : Step s t) : Steps s t := .single step

theorem takeUpTo_steps (look : Look) (count : Nat) (s : State) :
    Steps s (takeUpTo look count s) := by
  induction count generalizing s with
  | zero => exact .refl
  | succ count ih =>
      rw [takeUpTo]
      split
      · exact .head (.take s) (ih _)
      · exact .refl

theorem takeWhile_steps (look : Look) (s : State) : Steps s (s.takeWhile look) :=
  takeUpTo_steps look _ s

theorem recover_steps (s : State) (issue : SyntaxIssue) (depth : Nat) (sync : SyncSet) :
    Steps s (s.recover (s.errorHere issue) depth sync) := by
  refine .head (.record s issue) (.head (.closeTo _ depth) ?_)
  simp only [recover]
  split
  · exact (Step.discard _ _).steps
  · exact .head (.discard _ _) (Step.note _ _).steps

theorem skipStuck_steps (s : State) : Steps s s.skipStuck :=
  .head (.note s _) (Step.discard _ 1).steps

end State

open State

namespace Outcome

def Reaches (s : State) : Outcome → Prop
  | ok t => Steps s t
  | failed e t => Steps s t ∧ ∃ issue, e = t.errorHere issue

theorem Reaches.of_steps {s t : State} {outcome : Outcome} (steps : Steps s t)
    (reaches : outcome.Reaches t) : outcome.Reaches s := by
  cases outcome with
  | ok u => exact steps.trans reaches
  | failed e u => exact ⟨steps.trans reaches.1, reaches.2⟩

theorem Reaches.andThen {s : State} {outcome : Outcome} {next : State → Outcome}
    (first : outcome.Reaches s) (second : ∀ t, (next t).Reaches t) :
    (outcome.andThen next).Reaches s := by
  cases outcome with
  | ok t => exact (second t).of_steps first
  | failed e t => exact first

theorem Reaches.recovered {s : State} {outcome : Outcome} (reaches : outcome.Reaches s)
    (depth : Nat) (sync : SyncSet) : Steps s (outcome.recovered depth sync) := by
  cases outcome with
  | ok t => exact reaches
  | failed e t =>
      obtain ⟨steps, issue, rfl⟩ := reaches
      exact steps.trans (recover_steps t issue depth sync)

end Outcome

namespace Rule

theorem runSeparated_reaches {go : Look} {item before after : State → Outcome}
    (hi : ∀ s, (item s).Reaches s) (hb : ∀ s, (before s).Reaches s)
    (ha : ∀ s, (after s).Reaches s) (rounds : Nat) (s : State) :
    (runSeparated go item before after rounds s).Reaches s := by
  induction rounds generalizing s with
  | zero => exact .refl
  | succ rounds ih =>
      rw [runSeparated]
      split
      · refine (hi s).andThen fun t => (hb t).andThen fun u => ?_
        split
        · exact ((ha u.take).andThen ih).of_steps (Step.take u).steps
        · exact .refl
      · exact .refl

section Items
variable {stop : Look} {sync : SyncSet} {item : State → Outcome}

def itemRound (sync : SyncSet) (item : State → Outcome) (s : State) : State :=
  let after := (item s).recovered s.depth sync
  if after.rest.length = s.rest.length then after.skipStuck else after

theorem runItems_succ (rounds : Nat) (s : State) :
    runItems stop sync item (rounds + 1) s =
      if stop.holds (s.takeWhile .terminator).rest || (s.takeWhile .terminator).rest.isEmpty then
        s.takeWhile .terminator
      else runItems stop sync item rounds (itemRound sync item (s.takeWhile .terminator)) := rfl

inductive Round (sync : SyncSet) (item : State → Outcome) : State → State → Prop
  | terminators (s : State) : Round sync item s (s.takeWhile .terminator)
  | item (s : State) : Round sync item s (itemRound sync item s)

abbrev Rounds (sync : SyncSet) (item : State → Outcome) : State → State → Prop :=
  Relation.ReflTransGen (Round sync item)

variable (stop sync item) in
theorem runItems_rounds (rounds : Nat) (s : State) :
    Rounds sync item s (runItems stop sync item rounds s) := by
  induction rounds generalizing s with
  | zero => exact .refl
  | succ rounds ih =>
      rw [runItems_succ]
      refine .head (.terminators s) ?_
      split
      · exact .refl
      · exact .head (.item _) (ih _)

theorem itemRound_steps (hi : ∀ s, (item s).Reaches s) (s : State) :
    Steps s (itemRound sync item s) := by
  have recovers := (hi s).recovered s.depth sync
  simp only [itemRound]
  split
  · exact recovers.trans (skipStuck_steps _)
  · exact recovers

theorem Rounds.steps (hi : ∀ s, (item s).Reaches s) {s t : State} (rounds : Rounds sync item s t) :
    Steps s t := by
  induction rounds with
  | refl => exact .refl
  | tail _ round ih =>
      refine ih.trans ?_
      cases round with
      | terminators => exact takeWhile_steps .terminator _
      | item => exact itemRound_steps hi _

end Items

theorem closed_reaches (s : State) : (Outcome.ok (s.onBuilder Builder.close)).Reaches s :=
  (Step.close s).steps

theorem run_reaches {enter : Category → State → Outcome}
    (he : ∀ category s, (enter category s).Reaches s) (rule : Rule) (s : State) :
    (rule.run enter s).Reaches s := by
  induction rule generalizing s with
  | done => exact .refl
  | seq first second ih₁ ih₂ => exact (ih₁ s).andThen ih₂
  | branch look yes no ih₁ ih₂ =>
      rw [run]
      split
      · exact ih₁ s
      · exact ih₂ s
  | fail issue => exact ⟨.refl, issue, rfl⟩
  | report issue => exact (Step.record s issue).steps
  | announce => exact (Step.note s _).steps
  | take => exact (Step.take s).steps
  | takeKeyword => exact (Step.takeKeyword s).steps
  | takeWhile look => exact takeWhile_steps look s
  | literal kind flavor => exact (Step.takeLiteral s kind flavor).steps
  | label field => exact (Step.nameLast s field).steps
  | labelNext field => exact (Step.nameNext s field).steps
  | retag kind => exact (Step.retag s kind).steps
  | node kind body ih =>
      exact ((ih _).andThen fun t => closed_reaches t).of_steps (Step.startNode s kind).steps
  | wrapLast kind body ih =>
      exact ((ih _).andThen fun t => closed_reaches t).of_steps (Step.startAroundLast s kind).steps
  | nested category => exact he category s
  | separated go item before after ih₁ ih₂ ih₃ => exact runSeparated_reaches ih₁ ih₂ ih₃ _ s
  | recovering sync item ih => exact (ih s).recovered _ sync
  | items stop sync item ih => exact (runItems_rounds _ _ _ _ s).steps ih

end Rule

theorem enterCategory_reaches (levels : Nat) (category : Category) (s : State) :
    (enterCategory levels category s).Reaches s := by
  induction levels generalizing category s with
  | zero => exact ⟨.refl, .tooDeep, rfl⟩
  | succ levels ih =>
      rw [enterCategory]
      split
      · exact ⟨.refl, .tooDeep, rfl⟩
      · exact Rule.run_reaches ih _ s

theorem Rule.runWhole_reaches (rule : Rule) (s : State) : (rule.runWhole s).Reaches s :=
  Rule.run_reaches (enterCategory_reaches _) rule s

theorem State.finish_steps {s : State} {outcome : Outcome} (reaches : outcome.Reaches s) :
    Steps s (State.finish outcome) := by
  cases outcome with
  | ok t =>
      refine Relation.ReflTransGen.trans reaches (.head (.closeTo t 1) ?_)
      refine (takeWhile_steps .terminator _).trans ?_
      simp only [State.finish]
      change Steps (t.closeToRoot.takeWhile .terminator) _
      generalize t.closeToRoot.takeWhile .terminator = u
      by_cases done : u.rest.isEmpty = true
      · rw [if_pos done]
        exact (Step.discard _ _).steps
      · rw [if_neg done]
        exact .head (.record _ .trailing) (Step.discard _ _).steps
  | failed e t =>
      obtain ⟨steps, issue, rfl⟩ := reaches
      refine steps.trans (.head (.record t issue) (.head (.closeTo _ 1) ?_))
      exact (takeWhile_steps .terminator _).trans (Step.discard _ _).steps

theorem parseStream_steps (entry : Entry) (stream : TokenStream) :
    Steps (State.initial entry.rootKind stream) (parseStream entry stream) :=
  State.finish_steps (entry.rule.runWhole_reaches _)

namespace State

theorem errors_recordLexical (s : State) (errors : List LexicalError) :
    s.errors.toList <+: (s.recordLexical errors).errors.toList :=
  ⟨errors.map .lexical, by simp [recordLexical]⟩

theorem errors_takeAs (f : Token → Token) (s : State) : (s.takeAs f).errors = s.errors := by
  unfold takeAs
  split <;> rfl

theorem errors_takeUpTo (look : Look) (count : Nat) (s : State) :
    (takeUpTo look count s).errors = s.errors := by
  induction count generalizing s with
  | zero => rfl
  | succ count ih =>
      rw [takeUpTo]
      split
      · rw [ih, take, errors_takeAs]
      · rfl

theorem syntactic_mem_recordLexical {s : State} {errors : List LexicalError} {f : SyntaxError}
    (mem : .syntactic f ∈ (s.recordLexical errors).errors.toList) :
    .syntactic f ∈ s.errors.toList := by
  rw [recordLexical, Array.toList_appendList] at mem
  exact (List.mem_append.mp mem).resolve_right (by simp)

theorem syntactic_mem_takeLiteral {s : State} {kind : NodeKind} {flavor : Flavor} {f : SyntaxError}
    (mem : .syntactic f ∈ (s.takeLiteral kind flavor).errors.toList) :
    .syntactic f ∈ s.errors.toList := by
  unfold takeLiteral at mem
  split at mem
  · exact mem
  · exact syntactic_mem_recordLexical mem

theorem errors_takeLiteral (kind : NodeKind) (flavor : Flavor) (s : State) :
    s.errors.toList <+: (s.takeLiteral kind flavor).errors.toList := by
  unfold takeLiteral
  split
  · exact List.prefix_refl _
  · exact errors_recordLexical _ _

theorem errors_discard (s : State) (count : Nat) :
    s.errors.toList <+: (s.discard count).errors.toList := by
  unfold discard
  simp only
  split
  · exact List.prefix_refl _
  · exact errors_recordLexical _ _

theorem Step.errors {s t : State} (step : Step s t) : s.errors.toList <+: t.errors.toList := by
  cases step with
  | take => exact errors_takeAs id s ▸ List.prefix_refl _
  | takeKeyword => exact errors_takeAs asKeyword s ▸ List.prefix_refl _
  | takeLiteral kind flavor => exact errors_takeLiteral kind flavor s
  | discard count => exact errors_discard s count
  | record issue =>
      rw [State.record, Array.toList_push]
      exact List.prefix_append _ _
  | note | nameLast | nameNext | retag | startNode | startAroundLast | close | closeTo =>
      exact List.prefix_refl _

theorem Steps.errors {s t : State} (steps : Steps s t) : s.errors.toList <+: t.errors.toList := by
  induction steps with
  | refl => exact List.prefix_refl _
  | tail _ step ih => exact ih.trans step.errors

theorem mem_errors_recover (e : SyntaxError) (depth : Nat) (sync : SyncSet) (s : State) :
    .syntactic e ∈ (s.recover e depth sync).errors.toList := by
  have recorded : ParseError.syntactic e ∈ ((s.record (.syntactic e)).onBuilder
      (Builder.closeTo depth)).errors.toList := by
    simp [record, onBuilder]
  simp only [recover]
  split
  · exact (errors_discard _ _).subset recorded
  · exact (errors_discard _ _).subset recorded

end State

end UmkaSyntax
