import UmkaSyntax.Proofs.Parsing.Steps
import UmkaSyntax.Proofs.Tree.Height

/-!
A parse with all its moments. The traces here go through the same states as the runs that they
follow, one step at a time, and also show the nodes that are open while a literal or a skipped
stretch is put together, which a state holds only once they are done.
-/

namespace UmkaSyntax

structure Moment where
  state : State
  inside : Nat

def Moment.openNodes (m : Moment) : Nat := m.state.depth + m.inside

namespace State

def literalHeight (kind : NodeKind) (flavor : Flavor) (s : State) : Nat :=
  match s.rest with
  | [] => 0
  | t :: _ => ((LiteralParts.ofToken flavor t).toNode kind t.span.start).height

/-- The nodes that are open at once while the next `count` tokens are skipped: the error node, and
literals inside it. -/
def skippedHeight (count : Nat) (s : State) : Nat :=
  Child.heaviest (fun _ => 1) ((s.rest.take count).map fun t => (salvage t).1) + 1

end State

structure Trace where
  moments : List Moment
  outcome : Outcome

namespace Trace

def stay (s : State) : Trace := ⟨[], .ok s⟩

def step (s : State) : Trace := ⟨[⟨s, 0⟩], .ok s⟩

def build (height : Nat) (s t : State) : Trace := ⟨[⟨s, height⟩, ⟨t, 0⟩], .ok t⟩

def followedBy (trace next : Trace) : Trace := ⟨trace.moments ++ next.moments, next.outcome⟩

def andThen (trace : Trace) (next : State → Trace) : Trace :=
  match trace.outcome with
  | .ok s => trace.followedBy (next s)
  | .failed _ _ => trace

def takeUpTo (look : Look) : Nat → State → Trace
  | 0, s => stay s
  | count + 1, s =>
      if look.holds s.rest then (step s.take).andThen (takeUpTo look count) else stay s

def takeWhile (look : Look) (s : State) : Trace := takeUpTo look s.rest.length s

def takeLiteral (kind : NodeKind) (flavor : Flavor) (s : State) : Trace :=
  build (s.literalHeight kind flavor) s (s.takeLiteral kind flavor)

def discard (count : Nat) (s : State) : Trace := build (s.skippedHeight count) s (s.discard count)

def recover (e : SyntaxError) (depth : Nat) (sync : SyncSet) (s : State) : Trace :=
  (step (s.record (.syntactic e))).andThen fun s =>
    (step (s.onBuilder (Builder.closeTo depth))).andThen fun s =>
      let count := State.skipLength sync.look 0 s.rest
      (discard count s).andThen fun s =>
        if count = 0 then stay s else step (s.note (.skipped count s.offset))

def recovered (depth : Nat) (sync : SyncSet) (trace : Trace) : Trace :=
  match trace.outcome with
  | .ok _ => trace
  | .failed e s => trace.followedBy (recover e depth sync s)

def skipStuck (s : State) : Trace := (step (s.note (.stuck s.offset))).andThen (discard 1)

end Trace

namespace Rule
open Trace

def traceSeparated (go : Look) (item before after : State → Trace) : Nat → State → Trace
  | 0, s => stay s
  | rounds + 1, s =>
      if go.holds s.rest then
        (item s).andThen fun s =>
          (before s).andThen fun s =>
            if (Look.punct .comma).holds s.rest then
              (step s.take).andThen fun s =>
                (after s).andThen (traceSeparated go item before after rounds)
            else stay s
      else stay s

def traceRound (sync : SyncSet) (item : State → Trace) (s : State) : Trace :=
  ((item s).recovered s.depth sync).andThen fun after =>
    if after.rest.length = s.rest.length then skipStuck after else stay after

def traceItems (stop : Look) (sync : SyncSet) (item : State → Trace) : Nat → State → Trace
  | 0, s => stay s
  | rounds + 1, s =>
      (Trace.takeWhile .terminator s).andThen fun s =>
        if stop.holds s.rest || s.rest.isEmpty then stay s
        else (traceRound sync item s).andThen (traceItems stop sync item rounds)

def trace (enter : Category → State → Trace) : Rule → State → Trace
  | done, s => stay s
  | seq first second, s => (first.trace enter s).andThen (second.trace enter)
  | branch look yes no, s => if look.holds s.rest then yes.trace enter s else no.trace enter s
  | fail issue, s => ⟨[], .failed (s.errorHere issue) s⟩
  | report issue, s => step (s.record (.syntactic (s.errorHere issue)))
  | announce, s => step (s.note (.declaration s.offset))
  | take, s => step s.take
  | takeKeyword, s => step (s.takeAs State.asKeyword)
  | takeWhile look, s => Trace.takeWhile look s
  | literal kind flavor, s => Trace.takeLiteral kind flavor s
  | label field, s => step (s.onBuilder (Builder.mapTop (OpenNode.nameLast field)))
  | labelNext field, s =>
      step (s.onBuilder (Builder.mapTop fun n => { n with pending := some field }))
  | retag kind, s => step (s.onBuilder (Builder.mapTop fun n => { n with kind := kind }))
  | node kind body, s =>
      (step (s.onBuilder (Builder.startNode kind s.offset))).andThen fun s =>
        (body.trace enter s).andThen fun s => step (s.onBuilder Builder.close)
  | wrapLast kind body, s =>
      (step (s.onBuilder (Builder.startAroundLast kind s.offset))).andThen fun s =>
        (body.trace enter s).andThen fun s => step (s.onBuilder Builder.close)
  | nested category, s => enter category s
  | separated go item before after, s =>
      traceSeparated go (item.trace enter) (before.trace enter) (after.trace enter)
        (s.rest.length + 1) s
  | recovering sync item, s => (item.trace enter s).recovered s.depth sync
  | items stop sync item, s => traceItems stop sync (item.trace enter) (s.rest.length + 1) s

end Rule

open Trace

def traceCategory : Nat → Category → State → Trace
  | 0, _, s => ⟨[], .failed (s.errorHere .tooDeep) s⟩
  | levels + 1, category, s =>
      if nestingLimit ≤ s.depth then ⟨[], .failed (s.errorHere .tooDeep) s⟩
      else (Grammar.categoryRule category).trace (traceCategory levels) s

namespace Trace

def finish (trace : Trace) : Trace :=
  match trace.outcome with
  | .ok s =>
      trace.followedBy <| (step s.closeToRoot).andThen fun s =>
        (takeWhile .terminator s).andThen fun s =>
          (if s.rest.isEmpty then stay s
            else step (s.record (.syntactic (s.errorHere .trailing)))).andThen fun s =>
              discard s.rest.length s
  | .failed e s =>
      trace.followedBy <| (step (s.record (.syntactic e))).andThen fun s =>
        (step s.closeToRoot).andThen fun s =>
          (takeWhile .terminator s).andThen fun s => discard s.rest.length s

end Trace

def traceStream (entry : Entry) (stream : TokenStream) : Trace :=
  (entry.rule.trace (traceCategory nestingLimit) (State.initial entry.rootKind stream)).finish

def parseMoments (entry : Entry) (stream : TokenStream) : List Moment :=
  ⟨State.initial entry.rootKind stream, 0⟩ :: (traceStream entry stream).moments

namespace Trace

theorem outcome_andThen {trace : Trace} {outcome : Outcome} (same : trace.outcome = outcome)
    {next : State → Trace} {run : State → Outcome} (later : ∀ s, (next s).outcome = run s) :
    (trace.andThen next).outcome = outcome.andThen run := by
  subst same
  unfold andThen Outcome.andThen
  cases ended : trace.outcome with
  | ok s => exact later s
  | failed e s => exact ended

theorem outcome_takeUpTo (look : Look) (count : Nat) (s : State) :
    (takeUpTo look count s).outcome = .ok (State.takeUpTo look count s) := by
  induction count generalizing s with
  | zero => rfl
  | succ count ih =>
      rw [takeUpTo, State.takeUpTo]
      split
      · exact ih s.take
      · rfl

theorem outcome_takeWhile (look : Look) (s : State) :
    (takeWhile look s).outcome = .ok (s.takeWhile look) :=
  outcome_takeUpTo look _ s

theorem outcome_recover (e : SyntaxError) (depth : Nat) (sync : SyncSet) (s : State) :
    (recover e depth sync s).outcome = .ok (s.recover e depth sync) := by
  simp only [recover, State.recover, andThen, followedBy, step, discard, build]
  split <;> rfl

theorem outcome_recovered (depth : Nat) (sync : SyncSet) (trace : Trace) :
    (trace.recovered depth sync).outcome = .ok (trace.outcome.recovered depth sync) := by
  unfold recovered Outcome.recovered
  cases ended : trace.outcome with
  | ok s => exact ended
  | failed e s => exact outcome_recover e depth sync s

end Trace

namespace Rule

section
variable {item before after : State → Trace} {item' before' after' : State → Outcome}

theorem outcome_traceSeparated {go : Look} (hi : ∀ s, (item s).outcome = item' s)
    (hb : ∀ s, (before s).outcome = before' s) (ha : ∀ s, (after s).outcome = after' s)
    (rounds : Nat) (s : State) :
    (traceSeparated go item before after rounds s).outcome =
      runSeparated go item' before' after' rounds s := by
  induction rounds generalizing s with
  | zero => rfl
  | succ rounds ih =>
      rw [traceSeparated, runSeparated]
      split
      · refine outcome_andThen (hi s) fun t => outcome_andThen (hb t) fun u => ?_
        split
        · exact outcome_andThen (ha u.take) ih
        · rfl
      · rfl

theorem outcome_traceRound {sync : SyncSet} (hi : ∀ s, (item s).outcome = item' s) (s : State) :
    (traceRound sync item s).outcome = .ok (itemRound sync item' s) := by
  have recovered := outcome_recovered s.depth sync (item s)
  rw [hi] at recovered
  simp only [traceRound, andThen, recovered, followedBy, itemRound]
  split <;> rfl

theorem outcome_traceItems {stop : Look} {sync : SyncSet} (hi : ∀ s, (item s).outcome = item' s)
    (rounds : Nat) (s : State) :
    (traceItems stop sync item rounds s).outcome = .ok (runItems stop sync item' rounds s) := by
  induction rounds generalizing s with
  | zero => rfl
  | succ rounds ih =>
      rw [traceItems, runItems_succ]
      simp only [andThen, outcome_takeWhile, followedBy]
      split
      · rfl
      · simp only [outcome_traceRound hi]
        exact ih _

end

theorem outcome_trace {enter : Category → State → Trace} {enter' : Category → State → Outcome}
    (he : ∀ category s, (enter category s).outcome = enter' category s) (rule : Rule) (s : State) :
    (rule.trace enter s).outcome = rule.run enter' s := by
  induction rule generalizing s with
  | done | fail | report | announce | take | takeKeyword | literal | label | labelNext | retag => rfl
  | seq first second ih₁ ih₂ => exact outcome_andThen (ih₁ s) ih₂
  | branch look yes no ih₁ ih₂ =>
      rw [trace, run]
      split
      · exact ih₁ s
      · exact ih₂ s
  | takeWhile look => exact outcome_takeWhile look s
  | node kind body ih => exact outcome_andThen (ih _) fun t => rfl
  | wrapLast kind body ih => exact outcome_andThen (ih _) fun t => rfl
  | nested category => exact he category s
  | separated go item before after ih₁ ih₂ ih₃ => exact outcome_traceSeparated ih₁ ih₂ ih₃ _ s
  | recovering sync item ih =>
      rw [trace, run, outcome_recovered, ih]
  | items stop sync item ih => exact outcome_traceItems ih _ s

end Rule

theorem outcome_traceCategory (levels : Nat) (category : Category) (s : State) :
    (traceCategory levels category s).outcome = enterCategory levels category s := by
  induction levels generalizing category s with
  | zero => rfl
  | succ levels ih =>
      rw [traceCategory, enterCategory]
      split
      · rfl
      · exact Rule.outcome_trace ih _ s

theorem Trace.outcome_finish (trace : Trace) :
    trace.finish.outcome = .ok (State.finish trace.outcome) := by
  unfold finish State.finish
  cases trace.outcome with
  | ok s =>
      simp only [followedBy, andThen, step, outcome_takeWhile]
      by_cases ended : (s.closeToRoot.takeWhile .terminator).rest.isEmpty = true
      · simp only [if_pos ended]
        rfl
      · simp only [if_neg ended]
        rfl
  | failed e s =>
      simp only [followedBy, andThen, step, outcome_takeWhile]
      rfl

theorem outcome_traceStream (entry : Entry) (stream : TokenStream) :
    (traceStream entry stream).outcome = .ok (parseStream entry stream) := by
  rw [traceStream, outcome_finish, Rule.outcome_trace (outcome_traceCategory nestingLimit)]
  rfl

/-- The moments lead from one state to another. Between neighbours one step happens to the state, or
nothing but what goes on inside. -/
inductive Walk : State → List Moment → State → Prop
  | done (s : State) : Walk s [] s
  | inside {s t : State} {inside : Nat} {more : List Moment} : Walk s more t →
      Walk s (⟨s, inside⟩ :: more) t
  | step {s u t : State} {more : List Moment} : State.Step s u → Walk u more t →
      Walk s (⟨u, 0⟩ :: more) t

theorem Walk.append {s t u : State} {first second : List Moment} (left : Walk s first t)
    (right : Walk t second u) : Walk s (first ++ second) u := by
  induction left with
  | done => exact right
  | inside _ ih => exact .inside (ih right)
  | step step _ ih => exact .step step (ih right)

def Trace.LeadsFrom (s : State) (trace : Trace) : Prop :=
  match trace.outcome with
  | .ok t => Walk s trace.moments t
  | .failed e t => Walk s trace.moments t ∧ ∃ issue, e = t.errorHere issue

namespace Trace

theorem stay_leads (s : State) : (stay s).LeadsFrom s := .done s

theorem step_leads {s t : State} (step : State.Step s t) : (Trace.step t).LeadsFrom s :=
  .step step (.done t)

theorem build_leads {s t : State} (height : Nat) (step : State.Step s t) :
    (build height s t).LeadsFrom s :=
  .inside (.step step (.done t))

theorem failed_leads (issue : SyntaxIssue) (s : State) :
    (⟨[], .failed (s.errorHere issue) s⟩ : Trace).LeadsFrom s :=
  ⟨.done s, issue, rfl⟩

theorem LeadsFrom.followedBy {s t : State} {trace next : Trace} (walk : Walk s trace.moments t)
    (second : next.LeadsFrom t) : (trace.followedBy next).LeadsFrom s := by
  unfold LeadsFrom Trace.followedBy
  unfold LeadsFrom at second
  cases ended : next.outcome with
  | ok u =>
      rw [ended] at second
      exact walk.append second
  | failed e u =>
      rw [ended] at second
      exact ⟨walk.append second.1, second.2⟩

theorem LeadsFrom.andThen {s : State} {trace : Trace} {next : State → Trace}
    (first : trace.LeadsFrom s) (second : ∀ t, (next t).LeadsFrom t) :
    (trace.andThen next).LeadsFrom s := by
  have leads := first
  unfold LeadsFrom at first
  unfold Trace.andThen
  split
  · rename_i t ended
    rw [ended] at first
    exact .followedBy first (second t)
  · exact leads

theorem takeUpTo_leads (look : Look) (count : Nat) (s : State) : (takeUpTo look count s).LeadsFrom s := by
  induction count generalizing s with
  | zero => exact stay_leads s
  | succ count ih =>
      rw [takeUpTo]
      split
      · exact (step_leads (.take s)).andThen ih
      · exact stay_leads s

theorem takeWhile_leads (look : Look) (s : State) : (takeWhile look s).LeadsFrom s :=
  takeUpTo_leads look _ s

theorem discard_leads (count : Nat) (s : State) : (discard count s).LeadsFrom s :=
  build_leads _ (.discard s count)

theorem recover_leads (issue : SyntaxIssue) (depth : Nat) (sync : SyncSet) (s : State) :
    (recover (s.errorHere issue) depth sync s).LeadsFrom s := by
  refine (step_leads (.record s issue)).andThen fun t => (step_leads (.closeTo t depth)).andThen fun u => ?_
  refine (discard_leads _ u).andThen fun v => ?_
  split
  · exact stay_leads v
  · exact step_leads (.note v _)

theorem LeadsFrom.recovered {s : State} {trace : Trace} (leads : trace.LeadsFrom s) (depth : Nat)
    (sync : SyncSet) : (trace.recovered depth sync).LeadsFrom s := by
  have whole := leads
  unfold LeadsFrom at leads
  unfold Trace.recovered
  split
  · exact whole
  · rename_i e t ended
    rw [ended] at leads
    obtain ⟨walk, issue, rfl⟩ := leads
    exact .followedBy walk (recover_leads issue depth sync t)

theorem skipStuck_leads (s : State) : (skipStuck s).LeadsFrom s :=
  (step_leads (.note s _)).andThen fun t => discard_leads 1 t

end Trace

namespace Rule

section
variable {item before after : State → Trace} (hi : ∀ s, (item s).LeadsFrom s)
include hi

theorem traceSeparated_leads {go : Look} (hb : ∀ s, (before s).LeadsFrom s)
    (ha : ∀ s, (after s).LeadsFrom s) (rounds : Nat) (s : State) :
    (traceSeparated go item before after rounds s).LeadsFrom s := by
  induction rounds generalizing s with
  | zero => exact stay_leads s
  | succ rounds ih =>
      rw [traceSeparated]
      split
      · refine (hi s).andThen fun t => (hb t).andThen fun u => ?_
        split
        · exact (step_leads (.take u)).andThen fun v => (ha v).andThen ih
        · exact stay_leads u
      · exact stay_leads s

theorem traceRound_leads (sync : SyncSet) (s : State) : (traceRound sync item s).LeadsFrom s := by
  refine ((hi s).recovered s.depth sync).andThen fun t => ?_
  split
  · exact skipStuck_leads t
  · exact stay_leads t

theorem traceItems_leads (stop : Look) (sync : SyncSet) (rounds : Nat) (s : State) :
    (traceItems stop sync item rounds s).LeadsFrom s := by
  induction rounds generalizing s with
  | zero => exact stay_leads s
  | succ rounds ih =>
      refine (takeWhile_leads .terminator s).andThen fun t => ?_
      split
      · exact stay_leads t
      · exact (traceRound_leads hi sync t).andThen ih

end

theorem trace_leads {enter : Category → State → Trace}
    (he : ∀ category s, (enter category s).LeadsFrom s) (rule : Rule) (s : State) :
    (rule.trace enter s).LeadsFrom s := by
  induction rule generalizing s with
  | done => exact stay_leads s
  | seq first second ih₁ ih₂ => exact (ih₁ s).andThen ih₂
  | branch look yes no ih₁ ih₂ =>
      rw [trace]
      split
      · exact ih₁ s
      · exact ih₂ s
  | fail issue => exact failed_leads issue s
  | report issue => exact step_leads (.record s issue)
  | announce => exact step_leads (.note s _)
  | take => exact step_leads (.take s)
  | takeKeyword => exact step_leads (.takeKeyword s)
  | takeWhile look => exact takeWhile_leads look s
  | literal kind flavor => exact build_leads _ (.takeLiteral s kind flavor)
  | label field => exact step_leads (.nameLast s field)
  | labelNext field => exact step_leads (.nameNext s field)
  | retag kind => exact step_leads (.retag s kind)
  | node kind body ih =>
      exact (step_leads (.startNode s kind)).andThen fun t =>
        (ih t).andThen fun u => step_leads (.close u)
  | wrapLast kind body ih =>
      exact (step_leads (.startAroundLast s kind)).andThen fun t =>
        (ih t).andThen fun u => step_leads (.close u)
  | nested category => exact he category s
  | separated go item before after ih₁ ih₂ ih₃ => exact traceSeparated_leads ih₁ ih₂ ih₃ _ s
  | recovering sync item ih => exact (ih s).recovered _ sync
  | items stop sync item ih => exact traceItems_leads ih stop sync _ s

end Rule

theorem traceCategory_leads (levels : Nat) (category : Category) (s : State) :
    (traceCategory levels category s).LeadsFrom s := by
  induction levels generalizing category s with
  | zero => exact failed_leads .tooDeep s
  | succ levels ih =>
      rw [traceCategory]
      split
      · exact failed_leads .tooDeep s
      · exact Rule.trace_leads ih _ s

theorem Trace.LeadsFrom.finish {s : State} {trace : Trace} (leads : trace.LeadsFrom s) :
    trace.finish.LeadsFrom s := by
  unfold LeadsFrom at leads
  unfold Trace.finish
  split
  · rename_i t ended
    rw [ended] at leads
    refine .followedBy leads ((step_leads (.closeTo t 1)).andThen fun u =>
      (takeWhile_leads .terminator u).andThen fun v => LeadsFrom.andThen ?_ fun w => discard_leads _ w)
    split
    · exact stay_leads v
    · exact step_leads (.record v .trailing)
  · rename_i e t ended
    rw [ended] at leads
    obtain ⟨walk, issue, rfl⟩ := leads
    exact .followedBy walk ((step_leads (.record t issue)).andThen fun u =>
      (step_leads (.closeTo u 1)).andThen fun v =>
        (takeWhile_leads .terminator v).andThen fun w => discard_leads _ w)

theorem parseMoments_walk (entry : Entry) (stream : TokenStream) :
    Walk (State.initial entry.rootKind stream) (parseMoments entry stream) (parseStream entry stream) := by
  have leads : (traceStream entry stream).LeadsFrom (State.initial entry.rootKind stream) :=
    (Rule.trace_leads (traceCategory_leads nestingLimit) entry.rule _).finish
  unfold Trace.LeadsFrom at leads
  rw [outcome_traceStream] at leads
  exact .inside leads

end UmkaSyntax
