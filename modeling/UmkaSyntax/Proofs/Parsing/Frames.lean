import UmkaSyntax.Proofs.Parsing.Steps

namespace UmkaSyntax

namespace Builder

theorem close_of_below {b : Builder} {outer : OpenNode} {below : List OpenNode}
    (eq : b.below = outer :: below) : b.close = ⟨outer.add (.node b.top.toNode), below⟩ := by
  rw [close, eq]

theorem below_closeDown {depth : Nat} {top : OpenNode} {rest below : List OpenNode}
    (inside : below <:+ rest) (hd : depth = below.length + 1) :
    (closeDown depth top rest).below = below := by
  fun_induction closeDown depth top rest with
  | case1 top => exact (List.suffix_nil.mp inside).symm
  | case2 top outer rest fits =>
      refine (inside.eq_of_length_le ?_).symm
      simp only [List.length_cons]
      omega
  | case3 top outer rest fits empty ih =>
      refine ih ((List.suffix_cons_iff.mp inside).resolve_left ?_)
      rintro rfl
      simp at hd
      omega
  | case4 top outer rest fits filled ih =>
      refine ih ((List.suffix_cons_iff.mp inside).resolve_left ?_)
      rintro rfl
      simp at hd
      omega

theorem below_closeTo {b : Builder} {below : List OpenNode} (inside : below <:+ b.below) :
    (b.closeTo (below.length + 1)).below = below :=
  below_closeDown inside rfl

end Builder

namespace State

theorem below_takeAs (f : Token → Token) (s : State) :
    (s.takeAs f).builder.below = s.builder.below := by
  unfold takeAs
  split <;> rfl

theorem below_takeWhile (look : Look) (s : State) :
    (s.takeWhile look).builder.below = s.builder.below := by
  suffices taken : ∀ count s, (takeUpTo look count s).builder.below = s.builder.below from taken _ s
  intro count
  induction count with
  | zero => exact fun _ => rfl
  | succ count ih =>
      intro s
      rw [takeUpTo]
      split
      · rw [ih, take, below_takeAs]
      · rfl

theorem below_takeLiteral (kind : NodeKind) (flavor : Flavor) (s : State) :
    (s.takeLiteral kind flavor).builder.below = s.builder.below := by
  unfold takeLiteral
  split <;> rfl

theorem below_discard (count : Nat) (s : State) :
    (s.discard count).builder.below = s.builder.below := by
  unfold discard
  dsimp only
  split <;> rfl

theorem below_recover {s : State} {below : List OpenNode} (inside : below <:+ s.builder.below)
    (e : SyntaxError) (sync : SyncSet) :
    (s.recover e (below.length + 1) sync).builder.below = below := by
  have closed := Builder.below_closeTo inside
  simp only [recover]
  split
  · rwa [below_discard]
  · rw [note, below_discard]
    exact closed

theorem below_skipStuck (s : State) : s.skipStuck.builder.below = s.builder.below :=
  below_discard _ _

end State

namespace Outcome

/-- Around the outcome the nodes of `below` are open, and after a success no node inside of them
but one. -/
def Keeps (below : List OpenNode) : Outcome → Prop
  | ok s => s.builder.below = below
  | failed _ s => below <:+ s.builder.below

theorem Keeps.andThen {below : List OpenNode} {outcome : Outcome} {next : State → Outcome}
    (first : outcome.Keeps below) (second : ∀ s, s.builder.below = below → (next s).Keeps below) :
    (outcome.andThen next).Keeps below := by
  cases outcome with
  | ok s => exact second s first
  | failed e s => exact first

theorem Keeps.below_recovered {s : State} {outcome : Outcome}
    (keeps : outcome.Keeps s.builder.below) (sync : SyncSet) :
    (outcome.recovered s.depth sync).builder.below = s.builder.below := by
  cases outcome with
  | ok t => exact keeps
  | failed e t => exact State.below_recover keeps e sync

theorem Keeps.closed {outer : OpenNode} {below : List OpenNode} {outcome : Outcome}
    (keeps : outcome.Keeps (outer :: below)) :
    (outcome.andThen fun s => .ok (s.onBuilder Builder.close)).Keeps below := by
  cases outcome with
  | ok s =>
      change s.builder.close.below = below
      rw [Builder.close_of_below keeps]
  | failed e s => exact (List.suffix_cons outer below).trans keeps

end Outcome

namespace Rule

section
variable {enter : Category → State → Outcome}

theorem runSeparated_keeps {go : Look} {item before after : State → Outcome}
    (hi : ∀ s, (item s).Keeps s.builder.below) (hb : ∀ s, (before s).Keeps s.builder.below)
    (ha : ∀ s, (after s).Keeps s.builder.below) (rounds : Nat) (s : State) :
    (runSeparated go item before after rounds s).Keeps s.builder.below := by
  induction rounds generalizing s with
  | zero => rfl
  | succ rounds ih =>
      rw [runSeparated]
      split
      · refine (hi s).andThen fun t ht => ?_
        rw [← ht]
        refine (hb t).andThen fun u hu => ?_
        rw [← hu]
        split
        · rw [← State.below_takeAs id u]
          exact (ha _).andThen fun v hv => hv ▸ ih v
        · rfl
      · rfl

theorem below_itemRound (sync : SyncSet) {item : State → Outcome} {s : State}
    (keeps : (item s).Keeps s.builder.below) :
    (itemRound sync item s).builder.below = s.builder.below := by
  have recovered := keeps.below_recovered sync
  simp only [itemRound]
  split
  · rw [State.below_skipStuck, recovered]
  · exact recovered

theorem Rounds.below {sync : SyncSet} {item : State → Outcome}
    (hi : ∀ s, (item s).Keeps s.builder.below) {s t : State} (rounds : Rounds sync item s t) :
    t.builder.below = s.builder.below := by
  induction rounds with
  | refl => rfl
  | @tail u _ _ round ih =>
      refine Eq.trans ?_ ih
      cases round with
      | terminators => exact State.below_takeWhile _ u
      | item => exact below_itemRound _ (hi u)

theorem run_keeps (he : ∀ category s, (enter category s).Keeps s.builder.below) (rule : Rule)
    (s : State) : (rule.run enter s).Keeps s.builder.below := by
  induction rule generalizing s with
  | done | fail | report | announce | label | labelNext | retag => first | rfl | exact List.suffix_refl _
  | seq first second ih₁ ih₂ => exact (ih₁ s).andThen fun t ht => ht ▸ ih₂ t
  | branch look yes no ih₁ ih₂ =>
      rw [run]
      split
      · exact ih₁ s
      · exact ih₂ s
  | take => exact State.below_takeAs id s
  | takeKeyword => exact State.below_takeAs _ s
  | takeWhile look => exact State.below_takeWhile look s
  | literal kind flavor => exact State.below_takeLiteral kind flavor s
  | node kind body ih => exact (ih (s.onBuilder (Builder.startNode kind s.offset))).closed
  | wrapLast kind body ih => exact (ih (s.onBuilder (Builder.startAroundLast kind s.offset))).closed
  | nested category => exact he category s
  | separated go item before after ih₁ ih₂ ih₃ => exact runSeparated_keeps ih₁ ih₂ ih₃ _ s
  | recovering sync item ih => exact (ih s).below_recovered sync
  | items stop sync item ih => exact (runItems_rounds _ _ _ _ s).below ih

end

end Rule

theorem enterCategory_keeps (levels : Nat) (category : Category) (s : State) :
    (enterCategory levels category s).Keeps s.builder.below := by
  induction levels generalizing category s with
  | zero => exact List.suffix_refl _
  | succ levels ih =>
      rw [enterCategory]
      split
      · exact List.suffix_refl _
      · exact Rule.run_keeps ih _ s

end UmkaSyntax
