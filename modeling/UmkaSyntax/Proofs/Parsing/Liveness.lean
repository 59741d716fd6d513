import UmkaSyntax.Proofs.Grammar.Movement
import UmkaSyntax.Proofs.Parsing.Progress

namespace UmkaSyntax

namespace State

theorem Advances.rest_suffix {s t : State} (advances : Advances s t) : t.rest <:+ s.rest := by
  obtain ⟨-, taken, -, rest, -⟩ := advances
  exact ⟨taken, rest.symm⟩

theorem Steps.rest_eq {s t : State} (steps : Steps s t) (same : t.rest.length = s.rest.length) :
    t.rest = s.rest :=
  steps.advances.rest_suffix.eq_of_length same

theorem rest_takeAs (f : Token → Token) (s : State) : (s.takeAs f).rest = s.rest.tail := by
  unfold takeAs
  split
  · rename_i none
    rw [none, List.tail_nil]
  · rename_i ahead
    rw [ahead, List.tail_cons]

theorem rest_takeLiteral (kind : NodeKind) (flavor : Flavor) (s : State) :
    (s.takeLiteral kind flavor).rest = s.rest.tail := by
  unfold takeLiteral
  split
  · rename_i none
    rw [none, List.tail_nil]
  · rename_i ahead
    rw [ahead, List.tail_cons]
    rfl

theorem takeWhile_shorter {look : Look} {s : State} (ahead : s.rest ≠ [])
    (holds : look.holds s.rest = true) : (s.takeWhile look).rest.length < s.rest.length := by
  obtain ⟨count, size⟩ := Nat.exists_eq_succ_of_ne_zero (mt List.length_eq_zero_iff.mp ahead)
  have le := (takeUpTo_steps look count s.take).advances.rest_length_le
  have tail : s.take.rest = s.rest.tail := rest_takeAs id s
  rw [tail, List.length_tail] at le
  rw [takeWhile, size, takeUpTo, if_pos holds]
  omega

end State

open State

theorem State.skipLength_stops (stop : Look) (depth : Nat) (tokens : List Token) :
    tokens.drop (skipLength stop depth tokens) = [] ∨
      stop.holds (tokens.drop (skipLength stop depth tokens)) = true := by
  fun_induction skipLength stop depth tokens with
  | case1 => exact .inl rfl
  | case2 t more stops => exact .inr stops
  | case3 t more goes ih => exact ih
  | case4 depth t more inside ih => exact ih

theorem State.rest_recover (e : SyntaxError) (depth : Nat) (sync : SyncSet) (s : State) :
    (s.recover e depth sync).rest = s.rest.drop (skipLength sync.look 0 s.rest) := by
  simp only [recover]
  split
  · exact rest_discard _ _
  · exact rest_discard _ _

theorem State.recover_shorter {sync : SyncSet} {s : State} (ahead : s.rest ≠ [])
    (goes : sync.look.holds s.rest = false) (e : SyntaxError) (depth : Nat) :
    (s.recover e depth sync).rest.length < s.rest.length := by
  obtain ⟨t, more, eq⟩ := List.exists_cons_of_ne_nil ahead
  have some : 0 < skipLength sync.look 0 s.rest := by
    rw [eq] at goes ⊢
    rw [skipLength, if_neg (by simp [goes])]
    exact Nat.succ_pos _
  rw [rest_recover, List.length_drop, eq, List.length_cons]
  rw [eq] at some
  omega

namespace Outcome

def final : Outcome → State
  | ok s | failed _ s => s

def allowed (still : Still) : Outcome → Bool
  | ok _ => still.succeeds
  | failed _ _ => still.fails

/-- Where no token was taken since `s`, the outcome is one that `still` allows. -/
def Within (still : Still) (s : State) (outcome : Outcome) : Prop :=
  outcome.final.rest = s.rest → outcome.allowed still = true

variable {s : State} {outcome : Outcome} {still first second : Still}

theorem Reaches.steps (reaches : outcome.Reaches s) : Steps s outcome.final := by
  cases outcome with
  | ok t => exact reaches
  | failed e t => exact reaches.1

theorem Within.andThen {next : State → Outcome} (reaches : outcome.Reaches s)
    (onward : ∀ t, (next t).Reaches t) (within : outcome.Within first s)
    (more : ∀ t, t.rest = s.rest → (next t).Within second t) :
    (outcome.andThen next).Within (first.andThen second) s := by
  cases outcome with
  | failed e t =>
      intro same
      have fails : first.fails = true := within same
      simp [Outcome.andThen, allowed, Still.andThen, fails]
  | ok t =>
      intro same
      have before : t.rest <:+ s.rest := (Steps.advances reaches).rest_suffix
      have after : (next t).final.rest <:+ t.rest := (onward t).steps.advances.rest_suffix
      have still : t.rest = s.rest := by
        refine before.eq_of_length_le ?_
        rw [← same]
        exact after.length_le
      have succeeds : first.succeeds = true := within still
      have allowed := more t still (same.trans still.symm)
      change (next t).allowed _ = true
      cases ended : next t with
      | ok u =>
          rw [ended] at allowed
          simpa [Outcome.allowed, Still.andThen, succeeds] using allowed
      | failed e u =>
          rw [ended] at allowed
          simpa [Outcome.allowed, Still.andThen, succeeds] using .inr allowed

theorem Within.mono (within : outcome.Within first s)
    (succeeds : first.succeeds = true → second.succeeds = true)
    (fails : first.fails = true → second.fails = true) : outcome.Within second s := by
  intro same
  cases outcome with
  | ok t => exact succeeds (within same)
  | failed e t => exact fails (within same)

theorem Within.closed (within : outcome.Within still s) :
    (outcome.andThen fun t => .ok (t.onBuilder Builder.close)).Within still s := by
  cases outcome with
  | ok t => exact within
  | failed e t => exact within

theorem Within.recovered (within : outcome.Within still s) (reaches : outcome.Reaches s)
    (depth : Nat) (sync : SyncSet) :
    (ok (outcome.recovered depth sync)).Within ⟨still.succeeds || still.fails, false⟩ s := by
  intro same
  have steps : outcome.final.rest <:+ s.rest := reaches.steps.advances.rest_suffix
  cases outcome with
  | ok t =>
      have succeeds : still.succeeds = true := within same
      simp [allowed, succeeds]
  | failed e t =>
      have after : (t.recover e depth sync).rest <:+ t.rest := by
        rw [State.rest_recover]
        exact List.drop_suffix _ _
      have fails : still.fails = true := within (steps.eq_of_length_le (by
        rw [← same]
        exact after.length_le))
      simp [allowed, fails]

end Outcome

open Outcome

namespace Rule

variable {enter : Category → State → Outcome}

theorem runSeparated_within {go : Look} {item before after : State → Outcome} {first second : Still}
    (ri : ∀ s, (item s).Reaches s) (rb : ∀ s, (before s).Reaches s) (ra : ∀ s, (after s).Reaches s)
    {s : State} (hi : (item s).Within first s)
    (hb : ∀ t, t.rest = s.rest → (before t).Within second t) (rounds : Nat) :
    (runSeparated go item before after (rounds + 1) s).Within
      ⟨go.verdict (Head.ofTokens s.rest) != some true || (first.andThen second).succeeds,
        (first.andThen second).fails⟩ s := by
  let tail (t : State) : Outcome :=
    if (Look.punct .comma).holds t.rest then
      (after t.take).andThen (runSeparated go item before after rounds) else .ok t
  have onward : ∀ t, (tail t).Reaches t := by
    intro t
    dsimp only [tail]
    split
    · exact ((ra t.take).andThen (runSeparated_reaches ri rb ra rounds)).of_steps (Step.take t).steps
    · exact .refl
  -- Behind a comma a token has been taken.
  have still : ∀ t, (tail t).Within ⟨true, false⟩ t := by
    intro t same
    dsimp only [tail] at same ⊢
    split
    · rename_i comma
      rw [if_pos comma] at same
      have ahead : t.rest ≠ [] := Look.ne_nil_of_needsToken rfl comma
      have taken : (((after t.take).andThen
          (runSeparated go item before after rounds)).final).rest.length ≤ t.take.rest.length :=
        ((ra t.take).andThen (runSeparated_reaches ri rb ra rounds)).steps.advances.rest_length_le
      have tail : t.take.rest = t.rest.tail := rest_takeAs id t
      have some := List.length_pos_iff.mpr ahead
      rw [same, tail, List.length_tail] at taken
      omega
    · rfl
  rw [runSeparated]
  split
  · have behind : ∀ t, t.rest = s.rest → ((before t).andThen tail).Within
        (second.andThen ⟨true, false⟩) t := fun t same =>
      (hb t same).andThen (rb t) onward fun u _ => still u
    refine (hi.andThen (ri s) (fun t => (rb t).andThen onward) behind).mono ?_ ?_
    · simp +contextual [Still.andThen]
    · simp +contextual [Still.andThen]
  · rename_i stops
    intro _
    have open' : go.verdict (Head.ofTokens s.rest) ≠ some true :=
      fun verdict => stops (Look.holds_of_verdict verdict)
    simp [allowed, open']

/-- A rule that takes no token ends as the token allows. -/
theorem run_within (reaches : ∀ category s, (enter category s).Reaches s)
    (takes : ∀ category s, (enter category s).Within ⟨false, true⟩ s) (rule : Rule) (s : State) :
    (rule.run enter s).Within (rule.still (Head.ofTokens s.rest)) s := by
  have ran := fun rule => run_reaches reaches rule
  induction rule generalizing s with
  | done | report | announce | label | labelNext | retag | items => exact fun _ => rfl
  | fail => exact fun _ => rfl
  | take => exact fun same => Head.atEnd_of_tail ((rest_takeAs id s).symm.trans same)
  | takeKeyword => exact fun same => Head.atEnd_of_tail ((rest_takeAs _ s).symm.trans same)
  | literal kind flavor =>
      exact fun same => Head.atEnd_of_tail ((rest_takeLiteral kind flavor s).symm.trans same)
  | takeWhile look =>
      intro same
      change (_ || _) = true
      by_cases none : s.rest = []
      · simp [none, Head.ofTokens, kindAhead]
      · have other : look.verdict (Head.ofTokens s.rest) ≠ some true := fun verdict =>
          absurd (congrArg List.length same)
            (Nat.ne_of_lt (takeWhile_shorter none (Look.holds_of_verdict verdict)))
        simp [other]
  | seq first second ih₁ ih₂ =>
      refine (ih₁ s).andThen (ran first s) (ran second) fun t same => ?_
      rw [← same]
      exact ih₂ t
  | branch look yes no ih₁ ih₂ =>
      rw [run, still]
      cases verdict : look.verdict (Head.ofTokens s.rest) with
      | some b =>
          rw [Look.holds_of_verdict verdict]
          cases b with
          | true => exact ih₁ s
          | false => exact ih₂ s
      | none =>
          dsimp only
          split
          · exact (ih₁ s).mono (by simp +contextual [Still.or]) (by simp +contextual [Still.or])
          · exact (ih₂ s).mono (by simp +contextual [Still.or]) (by simp +contextual [Still.or])
  | node kind body ih => exact (ih (s.onBuilder _)).closed
  | wrapLast kind body ih => exact (ih (s.onBuilder _)).closed
  | nested category => exact takes category s
  | separated go item before after ih₁ ih₂ =>
      refine runSeparated_within (ran item) (ran before) (ran after) (ih₁ s) (fun t same => ?_) _
      rw [← same]
      exact ih₂ t
  | recovering sync item ih => exact (ih s).recovered (ran item s) _ sync

end Rule

theorem enterCategory_takes (levels : Nat) (category : Category) (s : State) :
    (enterCategory levels category s).Within ⟨false, true⟩ s := by
  induction levels generalizing category s with
  | zero => exact fun _ => rfl
  | succ levels ih =>
      rw [enterCategory]
      split
      · exact fun _ => rfl
      · refine (Rule.run_within (enterCategory_reaches levels) ih _ s).mono ?_ fun _ => rfl
        rw [Grammar.categoryRule_takes category _ (Head.ofTokens_mem _)]
        exact id

namespace Rule

structure RunsItem (stop : Look) (tokens : List Token) : Prop where
  ahead : kindAhead tokens ≠ .endOfInput
  item : Look.terminator.holds tokens = false
  goes : stop.holds tokens = false

theorem RunsItem.ne_nil {stop : Look} {tokens : List Token} (runs : RunsItem stop tokens) :
    tokens ≠ [] := by
  rintro rfl
  exact runs.ahead rfl

variable {stop : Look} {sync : SyncSet} {item : Rule} {enter : Category → State → Outcome}

theorem item_shorter (moves : itemMoves stop sync item = true)
    (reaches : ∀ category s, (enter category s).Reaches s)
    (takes : ∀ category s, (enter category s).Within ⟨false, true⟩ s) {s : State}
    (runs : RunsItem stop s.rest) :
    ((item.run enter s).recovered s.depth sync).rest.length < s.rest.length := by
  have own := List.all_eq_true.mp moves _ (Head.ofTokens_mem s.rest)
  have token : (Head.ofTokens s.rest).kind ≠ .endOfInput := runs.ahead
  have runsOn : stopsAt stop (Head.ofTokens s.rest) = false := by
    have other : ∀ look : Look, look.holds s.rest = false →
        look.verdict (Head.ofTokens s.rest) ≠ some true := fun look fails verdict => by
      simp [Look.holds_of_verdict verdict] at fails
    simp [stopsAt, other _ runs.item, other _ runs.goes, token]
  simp only [runsOn, Bool.false_or, Bool.and_eq_true, Bool.not_eq_true', Bool.or_eq_true,
    beq_iff_eq] at own
  obtain ⟨noSuccess, skips⟩ := own
  have within := run_within reaches takes item s
  have reached := run_reaches reaches item s
  have before := reached.steps.advances.rest_suffix
  -- A success would have taken nothing only where the item allows it, and a failure that took
  -- nothing is made up for by recovery.
  cases ended : item.run enter s with
  | ok t =>
      rw [ended] at within before
      refine Nat.lt_of_le_of_ne before.length_le fun same => ?_
      have succeeds := within (before.eq_of_length same)
      simp [allowed, noSuccess] at succeeds
  | failed e t =>
      rw [ended] at within before
      by_cases same : t.rest = s.rest
      · have fails : (item.still (Head.ofTokens s.rest)).fails = true := within same
        have goes := skips.resolve_left (by simp [fails])
        have shorter : (t.recover e s.depth sync).rest.length < t.rest.length :=
          recover_shorter (same ▸ runs.ne_nil) (same ▸ Look.holds_of_verdict goes) e s.depth
        rwa [same] at shorter
      · have lt : t.rest.length < s.rest.length :=
          Nat.lt_of_le_of_ne before.length_le fun eq => same (before.eq_of_length eq)
        refine Nat.lt_of_le_of_lt ?_ lt
        change (t.recover e s.depth sync).rest.length ≤ _
        rw [rest_recover]
        exact (List.drop_suffix _ _).length_le

end Rule

end UmkaSyntax
