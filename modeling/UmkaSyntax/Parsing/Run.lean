import UmkaSyntax.Grammar.Declaration
import UmkaSyntax.Parsing.State

/-!
Running the grammar. A rule that fails leaves its nodes open; the nearest rule that recovers closes
them, so half-built nodes stay in the tree. Types, expressions and blocks nest only up to a limit,
which also bounds the run.
-/

namespace UmkaSyntax

inductive Outcome
  | ok (s : State)
  | failed (e : SyntaxError) (s : State)

namespace Outcome

@[inline] def andThen (outcome : Outcome) (next : State → Outcome) : Outcome :=
  match outcome with
  | ok s => next s
  | failed e s => failed e s

/-- The state after recovery from a failure, with the nodes of `depth` still open. -/
def recovered (depth : Nat) (sync : SyncSet) : Outcome → State
  | ok s => s
  | failed e s => s.recover e depth sync

end Outcome

namespace Rule

def runSeparated (go : Look) (item before after : State → Outcome) : Nat → State → Outcome
  | 0, s => .ok s
  | rounds + 1, s =>
      if go.holds s.rest then
        (item s).andThen fun s =>
          (before s).andThen fun s =>
            if (Look.punct .comma).holds s.rest then
              (after s.take).andThen (runSeparated go item before after rounds)
            else .ok s
      else .ok s

def runItems (stop : Look) (sync : SyncSet) (item : State → Outcome) : Nat → State → State
  | 0, s => s
  | rounds + 1, s =>
      let s := s.takeWhile .terminator
      if stop.holds s.rest || s.rest.isEmpty then s
      else
        let after := (item s).recovered s.depth sync
        runItems stop sync item rounds
          (if after.rest.length = s.rest.length then after.skipStuck else after)

/-- Runs a rule, with `enter` for the nested parts of the grammar. -/
def run (enter : Category → State → Outcome) : Rule → State → Outcome
  | done, s => .ok s
  | seq first second, s => (first.run enter s).andThen (second.run enter)
  | branch look yes no, s => if look.holds s.rest then yes.run enter s else no.run enter s
  | fail issue, s => .failed (s.errorHere issue) s
  | report issue, s => .ok (s.record (.syntactic (s.errorHere issue)))
  | announce, s => .ok (s.note (.declaration s.offset))
  | take, s => .ok s.take
  | takeKeyword, s => .ok (s.takeAs State.asKeyword)
  | takeWhile look, s => .ok (s.takeWhile look)
  | literal kind flavor, s => .ok (s.takeLiteral kind flavor)
  | label field, s => .ok (s.onBuilder (Builder.mapTop (OpenNode.nameLast field)))
  | labelNext field, s =>
      .ok (s.onBuilder (Builder.mapTop fun n => { n with pending := some field }))
  | retag kind, s => .ok (s.onBuilder (Builder.mapTop fun n => { n with kind := kind }))
  | node kind body, s =>
      (body.run enter (s.onBuilder (Builder.startNode kind s.offset))).andThen fun s =>
        .ok (s.onBuilder Builder.close)
  | wrapLast kind body, s =>
      (body.run enter (s.onBuilder (Builder.startAroundLast kind s.offset))).andThen fun s =>
        .ok (s.onBuilder Builder.close)
  | nested category, s => enter category s
  | separated go item before after, s =>
      runSeparated go (item.run enter) (before.run enter) (after.run enter) (s.rest.length + 1) s
  | recovering sync item, s => .ok ((item.run enter s).recovered s.depth sync)
  | items stop sync item, s => .ok (runItems stop sync (item.run enter) (s.rest.length + 1) s)

end Rule

def enterCategory : Nat → Category → State → Outcome
  | 0, _, s => .failed (s.errorHere .tooDeep) s
  | levels + 1, category, s =>
      if nestingLimit ≤ s.depth then .failed (s.errorHere .tooDeep) s
      else (Grammar.categoryRule category).run (enterCategory levels) s

/-- Every category opens a node before it enters another, so the limit on open nodes is met no
later than this bound. -/
def Rule.runWhole (rule : Rule) (s : State) : Outcome := rule.run (enterCategory nestingLimit) s

end UmkaSyntax
