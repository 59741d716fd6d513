import UmkaSyntax.Proofs.Parsing.Conservation

namespace UmkaSyntax

theorem State.rest_discard (count : Nat) (s : State) : (s.discard count).rest = s.rest.drop count := by
  unfold discard
  dsimp only
  split
  · rename_i none
    cases count with
    | zero => rfl
    | succ count =>
        cases ahead : s.rest with
        | nil => rfl
        | cons t more => simp [ahead] at none
  · rfl

theorem State.takeUpTo_stops (look : Look) {count : Nat} {s : State} (enough : s.rest.length ≤ count) :
    look.holds (takeUpTo look count s).rest = false ∨ (takeUpTo look count s).rest = [] := by
  induction count generalizing s with
  | zero => exact .inr (List.length_eq_zero_iff.mp (Nat.le_zero.mp enough))
  | succ count ih =>
      rw [takeUpTo]
      split
      · refine ih ?_
        rw [take, takeAs]
        split
        · rename_i none
          simp [none]
        · rename_i ahead
          simpa [ahead] using enough
      · rename_i stops
        exact .inl (Bool.eq_false_iff.mpr stops)

theorem State.takeWhile_takeWhile (look : Look) (s : State) :
    (s.takeWhile look).takeWhile look = s.takeWhile look := by
  have stops := takeUpTo_stops look (Nat.le_refl s.rest.length)
  change look.holds (s.takeWhile look).rest = false ∨ (s.takeWhile look).rest = [] at stops
  generalize s.takeWhile look = t at stops
  rw [takeWhile]
  rcases stops with fails | none
  · cases t.rest.length with
    | zero => rfl
    | succ count => rw [takeUpTo, if_neg (by simp [fails])]
  · rw [none]
    rfl

theorem Outcome.Reaches.length_le {outcome : Outcome} {s t : State} (reaches : outcome.Reaches s)
    (ok : outcome = .ok t) : t.rest.length ≤ s.rest.length := by
  subst ok
  exact (State.Steps.advances reaches).rest_length_le

namespace Rule

section Items
variable {stop : Look} {sync : SyncSet} {item : State → Outcome}

variable (sync) in
theorem itemRound_shorter (reaches : ∀ s, (item s).Reaches s) {s : State} (ahead : s.rest ≠ []) :
    (itemRound sync item s).rest.length < s.rest.length := by
  have le := ((reaches s).recovered s.depth sync).advances.rest_length_le
  have some := List.length_pos_iff.mpr ahead
  simp only [itemRound]
  split
  · rename_i stuck
    rw [State.skipStuck, State.rest_discard, List.length_drop, State.note, stuck]
    omega
  · omega

theorem runItems_enough (reaches : ∀ s, (item s).Reaches s) {rounds rounds' : Nat} {s : State}
    (enough : s.rest.length < rounds) (enough' : s.rest.length < rounds') :
    runItems stop sync item rounds s = runItems stop sync item rounds' s := by
  induction rounds generalizing rounds' s with
  | zero => exact absurd enough (Nat.not_lt_zero _)
  | succ rounds ih =>
      obtain ⟨rounds', rfl⟩ := Nat.exists_eq_succ_of_ne_zero (Nat.ne_zero_of_lt enough')
      have le := (State.takeWhile_steps .terminator s).advances.rest_length_le
      rw [runItems_succ, runItems_succ]
      split
      · rfl
      · rename_i goes
        have shorter := itemRound_shorter sync reaches (s := s.takeWhile .terminator) (by
          intro none
          simp [none] at goes)
        exact ih (by omega) (by omega)

theorem runItems_takeWhile (rounds : Nat) (s : State) :
    runItems stop sync item (rounds + 1) (s.takeWhile .terminator) =
      runItems stop sync item (rounds + 1) s := by
  rw [runItems_succ, runItems_succ, State.takeWhile_takeWhile]

variable (stop sync) in
theorem runItems_stops (reaches : ∀ s, (item s).Reaches s) {rounds : Nat} {s : State}
    (enough : s.rest.length < rounds) :
    stop.holds (runItems stop sync item rounds s).rest = true ∨
      (runItems stop sync item rounds s).rest = [] := by
  induction rounds generalizing s with
  | zero => exact absurd enough (Nat.not_lt_zero _)
  | succ rounds ih =>
      have le := (State.takeWhile_steps .terminator s).advances.rest_length_le
      rw [runItems_succ]
      split
      · rename_i stops
        rwa [Bool.or_eq_true, List.isEmpty_iff] at stops
      · rename_i goes
        have shorter := itemRound_shorter sync reaches (s := s.takeWhile .terminator) (by
          intro none
          simp [none] at goes)
        exact ih (by omega)

end Items

end Rule

end UmkaSyntax
