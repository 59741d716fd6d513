import UmkaSyntax.Proofs.Parsing.Kinds
import UmkaSyntax.Proofs.Parsing.Moments

/-!
How many nodes are open at once, and how deep the tree inside of them is. A nested part of the
grammar is entered only below the limit, and between two entries a rule opens no more nodes than
`Rule.reach`. The tree is no deeper than the open nodes were, except that the key of a map, once it
has been read, moves into an entry: so entries are not counted.
-/

namespace UmkaSyntax

namespace Rule

/-- The number of nodes that are open at once inside of the open node while the rule runs, without
those of nested parts of the grammar. -/
def reach : Rule → Nat
  | seq first second | branch _ first second => max first.reach second.reach
  | literal _ _ => 2
  | node _ body | wrapLast _ body => body.reach + 1
  | separated _ item before after => max item.reach (max before.reach after.reach)
  | recovering _ item | items _ _ item => max item.reach 3
  | _ => 0

/-- Whether only entries of maps are opened around what is already there, and only in nodes that
are not entries themselves, and whether no node is changed to an entry or from one. The open node is
none if it is `plain`. -/
def entersKeys (plain : Bool) : Rule → Bool
  | seq first second | branch _ first second => first.entersKeys plain && second.entersKeys plain
  | retag kind => plain && kind != .mapEntry
  | node kind body => body.entersKeys (kind != .mapEntry)
  | wrapLast kind body => plain && kind == .mapEntry && body.entersKeys false
  | separated _ item before after =>
      item.entersKeys false && before.entersKeys false && after.entersKeys false
  | recovering _ item | items _ _ item => item.entersKeys false
  | _ => true

theorem ne_mapEntry_of_entersKeys {rule : Rule} {plain : Bool} (keys : rule.entersKeys plain = true) :
    ∀ kind ∈ rule.retags, kind ≠ .mapEntry := by
  induction rule generalizing plain with
  | seq first second ih₁ ih₂ | branch _ first second ih₁ ih₂ =>
      simp only [entersKeys, Bool.and_eq_true] at keys
      exact fun kind mem => (List.mem_append.mp mem).elim (ih₁ keys.1 kind) (ih₂ keys.2 kind)
  | retag kind =>
      simp only [entersKeys, Bool.and_eq_true, bne_iff_ne] at keys
      exact List.forall_mem_singleton.mpr keys.2
  | separated go item before after ih₁ ih₂ ih₃ =>
      simp only [entersKeys, Bool.and_eq_true] at keys
      intro kind mem
      obtain mem | mem := List.mem_append.mp mem
      · exact (List.mem_append.mp mem).elim (ih₁ keys.1.1 kind) (ih₂ keys.1.2 kind)
      · exact ih₃ keys.2 kind mem
  | recovering _ item ih | items _ _ item ih => exact ih keys
  | _ => exact fun kind mem => absurd mem List.not_mem_nil

end Rule

theorem Grammar.reach_categoryRule (category : Category) : (categoryRule category).reach ≤ 6 := by
  cases category <;> decide

theorem Grammar.categoryRule_entersKeys (category : Category) :
    (categoryRule category).entersKeys false = true := by
  cases category <;> decide

theorem Entry.rule_reach (entry : Entry) : entry.rule.reach ≤ 6 := by
  cases entry <;> decide

theorem Entry.rule_entersKeys (entry : Entry) : entry.rule.entersKeys false = true := by
  cases entry <;> decide

def NodeKind.cost : NodeKind → Nat := NodeKind.mapEntry.allBut

theorem NodeKind.cost_le (kind : NodeKind) : kind.cost ≤ 1 := NodeKind.allBut_le _ _

/-- The children fit below the node, around which `outside` nodes are open. An entry takes no room
itself. -/
def OpenNode.Fits (limit outside : Nat) (n : OpenNode) : Prop :=
  ∀ c ∈ n.children.toList,
    outside + 1 + c.weight NodeKind.cost ≤ limit + if n.kind = .mapEntry then 1 else 0

namespace OpenNode

variable {limit outside : Nat} {n : OpenNode} {c : Child}

theorem Fits.add (fits : n.Fits limit outside) (hc : outside + 1 + c.weight NodeKind.cost ≤ limit) :
    (n.add c).Fits limit outside := by
  intro d mem
  rw [(kind_add c n).1]
  simp only [children_add, Array.toList_push, List.mem_append, List.mem_singleton] at mem
  obtain mem | rfl := mem
  · exact fits d mem
  · exact Nat.le_add_right_of_le hc

theorem Fits.toNode (fits : n.Fits limit outside) (room : outside + 1 ≤ limit) :
    outside + n.toNode.weight NodeKind.cost ≤ limit := by
  have heaviest : Child.heaviest NodeKind.cost n.children.toList ≤
      limit + (if n.kind = .mapEntry then 1 else 0) - (outside + 1) := by
    rw [Child.heaviest_le_iff]
    intro c mem
    have := fits c mem
    omega
  have cost : n.kind.cost = if n.kind = .mapEntry then 0 else 1 := rfl
  rw [OpenNode.toNode, Node.weight_ofChildren]
  by_cases entry : n.kind = .mapEntry
  · rw [if_pos entry] at heaviest cost
    omega
  · rw [if_neg entry] at heaviest cost
    omega

end OpenNode

structure Builder.Fits (limit : Nat) (b : Builder) : Prop where
  depth : b.depth ≤ limit
  nodes : ∀ n below, n :: below <:+ b.top :: b.below → n.Fits limit below.length

namespace Builder

variable {limit : Nat} {b : Builder} {n : OpenNode} {below : List OpenNode} {c : Child}

theorem fits_mk : (Builder.mk n below).Fits limit ↔
    below.length + 1 ≤ limit ∧ n.Fits limit below.length ∧
      ∀ m more, m :: more <:+ below → m.Fits limit more.length := by
  constructor
  · intro fits
    exact ⟨fits.depth, fits.nodes n below (List.suffix_refl _), fun m more inside =>
      fits.nodes m more (inside.trans (List.suffix_cons n below))⟩
  · rintro ⟨depth, top, others⟩
    refine ⟨depth, fun m more inside => ?_⟩
    obtain same | inside := List.suffix_cons_iff.mp inside
    · obtain ⟨rfl, rfl⟩ := List.cons.inj same
      exact top
    · exact others m more inside

theorem Fits.mapTop (fits : b.Fits limit) {f : OpenNode → OpenNode}
    (hf : (f b.top).Fits limit b.below.length) : (b.mapTop f).Fits limit :=
  have whole := fits_mk.mp fits
  fits_mk.mpr ⟨whole.1, hf, whole.2.2⟩

theorem Fits.add (fits : b.Fits limit) (hc : b.depth + c.weight NodeKind.cost ≤ limit) :
    (b.add c).Fits limit :=
  fits.mapTop ((fits.nodes b.top b.below (List.suffix_refl _)).add hc)

theorem Fits.startNode (fits : b.Fits limit) (room : b.depth + 1 ≤ limit) (kind : NodeKind)
    (offset : Nat) : (b.startNode kind offset).Fits limit :=
  fits_mk.mpr ⟨room, by simp [OpenNode.Fits, OpenNode.empty], fits.nodes⟩

theorem Fits.startAroundLast (fits : b.Fits limit) (room : b.depth + 1 ≤ limit)
    (plain : b.top.kind ≠ .mapEntry) (offset : Nat) :
    (b.startAroundLast .mapEntry offset).Fits limit := by
  obtain ⟨-, top, others⟩ := fits_mk.mp fits
  have part : ∀ i j, ∀ c ∈ (b.top.children.extract i j).toList,
      b.below.length + 1 + c.weight NodeKind.cost ≤ limit := by
    intro i j c mem
    rw [Array.toList_extract] at mem
    have own := top c (List.mem_of_mem_drop (List.mem_of_mem_take mem))
    rwa [if_neg plain] at own
  refine fits_mk.mpr ⟨room, fun c mem => ?_, fun m more inside => ?_⟩
  · have own := part _ _ c mem
    simp only [List.length_cons, if_true]
    omega
  · obtain same | inside := List.suffix_cons_iff.mp inside
    · obtain ⟨rfl, rfl⟩ := List.cons.inj same
      intro c mem
      have own := part _ _ c mem
      omega
    · exact others m more inside

theorem Fits.add_node {outer : OpenNode} (fits : (Builder.mk n (outer :: below)).Fits limit) :
    (Builder.mk (outer.add (.node n.toNode)) below).Fits limit := by
  obtain ⟨depth, top, others⟩ := fits_mk.mp fits
  refine fits_mk.mpr ⟨Nat.le_of_succ_le depth, ?_, fun m more inside =>
    others m more (inside.trans (List.suffix_cons outer below))⟩
  exact (others outer below (List.suffix_refl _)).add (top.toNode depth)

theorem Fits.close (fits : b.Fits limit) : b.close.Fits limit := by
  obtain ⟨top, below⟩ := b
  cases below with
  | nil => exact fits
  | cons outer below => exact fits.add_node

theorem Fits.closeDown {depth : Nat} {top : OpenNode} (fits : (Builder.mk top below).Fits limit) :
    (closeDown depth top below).Fits limit := by
  fun_induction Builder.closeDown depth top below with
  | case1 top =>
      obtain ⟨room, own, others⟩ := fits_mk.mp fits
      exact fits_mk.mpr ⟨room, own, others⟩
  | case2 top outer below stops =>
      obtain ⟨room, own, others⟩ := fits_mk.mp fits
      exact fits_mk.mpr ⟨room, own, others⟩
  | case3 top outer below goes empty ih =>
      obtain ⟨room, -, others⟩ := fits_mk.mp fits
      exact ih ⟨Nat.le_of_succ_le room, others⟩
  | case4 top outer below goes filled ih => exact ih fits.add_node

theorem Fits.closeTo (fits : b.Fits limit) (depth : Nat) : (b.closeTo depth).Fits limit :=
  Fits.closeDown fits

end Builder

def Moment.Fits (limit : Nat) (m : Moment) : Prop :=
  m.openNodes ≤ limit ∧ m.state.builder.Fits limit

structure Trace.Fits (limit : Nat) (trace : Trace) : Prop where
  moments : ∀ m ∈ trace.moments, m.Fits limit
  ended : trace.outcome.final.builder.Fits limit

variable {limit : Nat} {s t : State}

namespace State

theorem fits_mapTop {f : OpenNode → OpenNode} (fits : s.builder.Fits limit)
    (hf : (f s.builder.top).Fits limit s.builder.below.length) :
    (s.onBuilder (Builder.mapTop f)).builder.Fits limit :=
  Builder.Fits.mapTop fits hf

theorem fits_takeAs (fits : s.builder.Fits limit) (f : Token → Token) :
    (s.takeAs f).builder.Fits limit := by
  unfold takeAs
  split
  · exact fits
  · exact Builder.Fits.add fits fits.depth

theorem fits_takeLiteral (fits : s.builder.Fits limit) (room : s.depth + 2 ≤ limit)
    (kind : NodeKind) (flavor : Flavor) : (s.takeLiteral kind flavor).builder.Fits limit := by
  unfold takeLiteral
  split
  · exact fits
  · rename_i t rest ahead
    refine Builder.Fits.add fits ?_
    have weight := LiteralParts.weight_toNode NodeKind.cost_le kind t.span.start
    exact Nat.le_trans (Nat.add_le_add_left (weight _) _) room

theorem literalHeight_le (kind : NodeKind) (flavor : Flavor) (s : State) :
    s.literalHeight kind flavor ≤ 2 := by
  unfold literalHeight
  split
  · exact Nat.zero_le _
  · exact LiteralParts.weight_toNode (fun _ => Nat.le_refl 1) kind _ _

theorem heaviest_salvage {cost : NodeKind → Nat} (cheap : ∀ kind, cost kind ≤ 1) (tokens : List Token) :
    Child.heaviest cost (tokens.map fun t => (salvage t).1) ≤ 2 := by
  rw [Child.heaviest_le_iff]
  intro c mem
  obtain ⟨t, -, rfl⟩ := List.mem_map.mp mem
  exact weight_salvage cheap t

theorem skippedHeight_le (count : Nat) (s : State) : s.skippedHeight count ≤ 3 :=
  Nat.succ_le_succ (heaviest_salvage (fun _ => Nat.le_refl 1) _)

theorem fits_discard (fits : s.builder.Fits limit) (room : s.depth + 3 ≤ limit) (count : Nat) :
    (s.discard count).builder.Fits limit := by
  unfold discard
  dsimp only
  split
  · exact fits
  · refine Builder.Fits.add fits ?_
    rw [Child.weight, Node.weight_ofChildren, List.map_map]
    have skipped := heaviest_salvage NodeKind.cost_le (s.rest.take count)
    have error : NodeKind.error.cost = 1 := rfl
    have depth : s.builder.depth = s.depth := rfl
    simp only [Function.comp_def]
    omega

end State

namespace Trace

theorem stay_fits (fits : s.builder.Fits limit) : (stay s).Fits limit :=
  ⟨fun _ mem => absurd mem List.not_mem_nil, fits⟩

theorem failed_fits (fits : s.builder.Fits limit) (e : SyntaxError) :
    (⟨[], .failed e s⟩ : Trace).Fits limit :=
  ⟨fun _ mem => absurd mem List.not_mem_nil, fits⟩

theorem build_fits {height : Nat} (room : s.depth + height ≤ limit) (before : s.builder.Fits limit)
    (after : t.builder.Fits limit) : (build height s t).Fits limit := by
  refine ⟨fun m mem => ?_, after⟩
  simp only [build, List.mem_cons, List.not_mem_nil, or_false] at mem
  obtain rfl | rfl := mem
  · exact ⟨room, before⟩
  · exact ⟨after.depth, after⟩

theorem step_fits (fits : s.builder.Fits limit) : (step s).Fits limit := by
  refine ⟨fun m mem => ?_, fits⟩
  obtain rfl := List.mem_singleton.mp mem
  exact ⟨fits.depth, fits⟩

theorem Fits.followedBy {trace next : Trace} (first : trace.Fits limit) (second : next.Fits limit) :
    (trace.followedBy next).Fits limit :=
  ⟨fun m mem => (List.mem_append.mp mem).elim (first.moments m) (second.moments m), second.ended⟩

theorem Fits.andThen {trace : Trace} {next : State → Trace} (first : trace.Fits limit)
    (second : ∀ t, trace.outcome = .ok t → t.builder.Fits limit → (next t).Fits limit) :
    (trace.andThen next).Fits limit := by
  have ended := first.ended
  unfold Trace.andThen
  split
  · rename_i t eq
    rw [eq] at ended
    exact first.followedBy (second t eq ended)
  · exact first

theorem takeUpTo_fits (look : Look) (count : Nat) (fits : s.builder.Fits limit) :
    (takeUpTo look count s).Fits limit := by
  induction count generalizing s with
  | zero => exact stay_fits fits
  | succ count ih =>
      rw [takeUpTo]
      split
      · exact (step_fits (State.fits_takeAs fits id)).andThen fun t _ fits => ih fits
      · exact stay_fits fits

theorem takeWhile_fits (look : Look) (fits : s.builder.Fits limit) :
    (takeWhile look s).Fits limit :=
  takeUpTo_fits look _ fits

theorem discard_fits (fits : s.builder.Fits limit) (room : s.depth + 3 ≤ limit) (count : Nat) :
    (discard count s).Fits limit :=
  build_fits (Nat.le_trans (Nat.add_le_add_left (State.skippedHeight_le count s) _) room) fits
    (State.fits_discard fits room count)

theorem recover_fits {below : List OpenNode} (fits : s.builder.Fits limit)
    (inside : below <:+ s.builder.below) (room : below.length + 1 + 3 ≤ limit) (e : SyntaxError)
    (sync : SyncSet) : (recover e (below.length + 1) sync s).Fits limit := by
  have closed : ((s.record (.syntactic e)).onBuilder (Builder.closeTo (below.length + 1))).depth + 3 ≤
      limit := by
    rw [State.depth, Builder.depth]
    exact (Builder.below_closeTo inside).symm ▸ room
  refine (step_fits (s := s.record _) fits).andThen fun t eq fits => ?_
  cases eq
  refine (step_fits (Builder.Fits.closeTo fits _)).andThen fun t eq fits => ?_
  cases eq
  refine (discard_fits fits closed _).andThen fun t eq fits => ?_
  split
  · exact stay_fits fits
  · exact step_fits (s := t.note _) fits

theorem Fits.recovered {trace : Trace} (fits : trace.Fits limit)
    (keeps : trace.outcome.Keeps s.builder.below) (room : s.depth + 3 ≤ limit) (sync : SyncSet) :
    (trace.recovered s.depth sync).Fits limit := by
  have ended := fits.ended
  unfold Trace.recovered
  split
  · exact fits
  · rename_i e t eq
    rw [eq] at ended keeps
    exact fits.followedBy (recover_fits ended keeps room e sync)

theorem skipStuck_fits (fits : s.builder.Fits limit) (room : s.depth + 3 ≤ limit) :
    (skipStuck s).Fits limit := by
  refine (step_fits (s := s.note _) fits).andThen fun t eq fits => ?_
  cases eq
  exact discard_fits fits room 1

end Trace

theorem State.depth_eq_of_below (same : t.builder.below = s.builder.below) : t.depth = s.depth := by
  rw [State.depth, Builder.depth, same]
  rfl

namespace Rule
open Trace

section
variable {item before after : State → Trace}
  (ki : ∀ s, (item s).outcome.Keeps s.builder.below)
  {depth : Nat} (hi : ∀ s, s.builder.Fits limit → s.depth = depth → (item s).Fits limit)
include ki hi

theorem traceSeparated_fits {go : Look} (kb : ∀ s, (before s).outcome.Keeps s.builder.below)
    (ka : ∀ s, (after s).outcome.Keeps s.builder.below)
    (hb : ∀ s, s.builder.Fits limit → s.depth = depth → (before s).Fits limit)
    (ha : ∀ s, s.builder.Fits limit → s.depth = depth → (after s).Fits limit) (rounds : Nat)
    (fits : s.builder.Fits limit) (level : s.depth = depth) :
    (traceSeparated go item before after rounds s).Fits limit := by
  have same : ∀ {run : State → Trace} {s t : State}, (∀ s, (run s).outcome.Keeps s.builder.below) →
      s.depth = depth → (run s).outcome = .ok t → t.depth = depth := by
    intro run s t keeps eq ran
    have kept := keeps s
    rw [ran] at kept
    rw [State.depth_eq_of_below kept, eq]
  induction rounds generalizing s with
  | zero => exact stay_fits fits
  | succ rounds ih =>
      rw [traceSeparated]
      split
      · refine (hi s fits level).andThen fun t ran fits => ?_
        have level := same ki level ran
        refine (hb t fits level).andThen fun u ran fits => ?_
        have level := same kb level ran
        split
        · refine (step_fits (State.fits_takeAs fits id)).andThen fun v eq fits => ?_
          cases eq
          have level : u.take.depth = depth :=
            (State.depth_eq_of_below (State.below_takeAs id u)).trans level
          exact (ha _ fits level).andThen fun w ran fits => ih fits (same ka level ran)
        · exact stay_fits fits
      · exact stay_fits fits

theorem traceItems_fits (stop : Look) (sync : SyncSet) (rounds : Nat) (room : depth + 3 ≤ limit)
    (fits : s.builder.Fits limit) (level : s.depth = depth) :
    (traceItems stop sync item rounds s).Fits limit := by
  induction rounds generalizing s with
  | zero => exact stay_fits fits
  | succ rounds ih =>
      rw [traceItems]
      refine (takeWhile_fits .terminator fits).andThen fun t ran fits => ?_
      rw [outcome_takeWhile] at ran
      cases ran
      have level : (s.takeWhile .terminator).depth = depth :=
        (State.depth_eq_of_below (State.below_takeWhile _ s)).trans level
      split
      · exact stay_fits fits
      · refine Fits.andThen ?_ fun u ran fits => ih fits ?_
        · refine ((hi _ fits level).recovered (ki _) (level ▸ room) sync).andThen fun u ran fits => ?_
          split
          · refine skipStuck_fits fits ?_
            rw [outcome_recovered] at ran
            cases ran
            rw [State.depth_eq_of_below ((ki _).below_recovered sync), level]
            exact room
          · exact stay_fits fits
        · rw [outcome_traceRound fun _ => rfl] at ran
          cases ran
          rw [State.depth_eq_of_below (below_itemRound sync (ki _)), level]

end

/-- A rule with enough room stays within the limit. -/
theorem trace_fits {enter : Category → State → Trace}
    (ke : ∀ category s, (enter category s).outcome.Keeps s.builder.below)
    (he : ∀ category s, s.builder.top.kind ≠ .mapEntry →
      (enter category s).outcome.Hosts (· ≠ .mapEntry) s.builder.below)
    (fe : ∀ category s, s.builder.Fits limit → (enter category s).Fits limit) (rule : Rule)
    {plain : Bool} (keys : rule.entersKeys plain = true)
    (known : plain = true → s.builder.top.kind ≠ .mapEntry) (fits : s.builder.Fits limit)
    (room : s.depth + rule.reach ≤ limit) : (rule.trace enter s).Fits limit := by
  have keeps : ∀ (rule : Rule) s, (rule.trace enter s).outcome.Keeps s.builder.below := by
    intro rule s
    rw [outcome_trace fun _ _ => rfl]
    exact run_keeps ke rule s
  have unknown : ∀ {s : State}, false = true → s.builder.top.kind ≠ .mapEntry := fun never => by
    cases never
  have top : ∀ {s : State}, s.builder.Fits limit → s.builder.top.Fits limit s.builder.below.length :=
    fun fits => fits.nodes _ _ (List.suffix_refl _)
  -- Along the rule: the open nodes fit the limit, there is room for `reach` more, and the open
  -- node is no entry where the rule is `plain`.
  induction rule generalizing plain s with
  | done => exact stay_fits fits
  | seq first second ih₁ ih₂ =>
      simp only [entersKeys, Bool.and_eq_true] at keys
      simp only [reach] at room
      refine (ih₁ keys.1 known fits (by omega)).andThen fun t ran fits => ?_
      have kept := keeps first s
      rw [ran] at kept
      refine ih₂ keys.2 (fun plain => ?_) fits (by rw [State.depth_eq_of_below kept]; omega)
      have hosts := run_hosts ke he first (ne_mapEntry_of_entersKeys keys.1) (known plain)
      rw [← outcome_trace fun _ _ => rfl] at hosts
      exact hosts.kind_of_ok (keeps first s) ran
  | branch look yes no ih₁ ih₂ =>
      simp only [entersKeys, Bool.and_eq_true] at keys
      simp only [reach] at room
      rw [trace]
      split
      · exact ih₁ keys.1 known fits (by omega)
      · exact ih₂ keys.2 known fits (by omega)
  | fail issue => exact failed_fits fits _
  | report | announce => exact step_fits fits
  | take | takeKeyword => exact step_fits (State.fits_takeAs fits _)
  | takeWhile look => exact takeWhile_fits look fits
  | literal kind flavor =>
      refine build_fits ?_ fits (State.fits_takeLiteral fits room kind flavor)
      exact Nat.le_trans (Nat.add_le_add_left (State.literalHeight_le kind flavor s) _) room
  | label field =>
      refine step_fits (State.fits_mapTop fits fun c mem => ?_)
      rw [OpenNode.children_nameLast] at mem
      rw [(OpenNode.kind_nameLast field _).1]
      exact top fits c mem
  | labelNext field => exact step_fits (State.fits_mapTop fits (top fits))
  -- A node that is no entry gives its children no room to spare, so they fit under any kind.
  | retag kind =>
      refine step_fits (State.fits_mapTop fits fun c mem => ?_)
      have own := top fits c mem
      simp only [entersKeys, Bool.and_eq_true] at keys
      rw [if_neg (known keys.1)] at own
      exact Nat.le_add_right_of_le own
  | node kind body ih =>
      simp only [reach] at room
      have opened : (s.onBuilder (Builder.startNode kind s.offset)).builder.Fits limit :=
        Builder.Fits.startNode fits (by rw [State.depth] at room; omega) kind s.offset
      refine (step_fits opened).andThen fun t eq _ => ?_
      cases eq
      refine Fits.andThen (ih keys (fun plain => ?_) opened ?_) fun u ran fits =>
        step_fits (Builder.Fits.close fits)
      · have other : kind ≠ .mapEntry := by simpa using plain
        exact other
      · have depth : (s.onBuilder (Builder.startNode kind s.offset)).depth = s.depth + 1 := rfl
        omega
  -- Only an entry is opened around a child, and an entry costs nothing.
  | wrapLast kind body ih =>
      simp only [entersKeys, Bool.and_eq_true, beq_iff_eq] at keys
      obtain ⟨⟨plain, rfl⟩, keys⟩ := keys
      simp only [reach] at room
      have opened : (s.onBuilder (Builder.startAroundLast .mapEntry s.offset)).builder.Fits limit :=
        Builder.Fits.startAroundLast fits (by rw [State.depth] at room; omega) (known plain) s.offset
      refine (step_fits opened).andThen fun t eq _ => ?_
      cases eq
      refine Fits.andThen (ih keys unknown opened ?_) fun u ran fits =>
        step_fits (Builder.Fits.close fits)
      have depth : (s.onBuilder (Builder.startAroundLast .mapEntry s.offset)).depth = s.depth + 1 := rfl
      omega
  | nested category => exact fe category s fits
  | separated go item before after ih₁ ih₂ ih₃ =>
      simp only [entersKeys, Bool.and_eq_true] at keys
      simp only [reach] at room
      refine traceSeparated_fits (keeps item) (fun t fits eq => ?_) (keeps before)
        (keeps after) (fun t fits eq => ?_) (fun t fits eq => ?_) _ fits rfl
      · exact ih₁ keys.1.1 unknown fits (by omega)
      · exact ih₂ keys.1.2 unknown fits (by omega)
      · exact ih₃ keys.2 unknown fits (by omega)
  | recovering sync item ih =>
      simp only [reach] at room
      exact (ih keys unknown fits (by omega)).recovered (keeps item s) (by omega) sync
  | items stop sync item ih =>
      simp only [reach] at room
      exact traceItems_fits (keeps item)
        (fun t fits eq => ih keys unknown fits (by omega)) stop sync _ (by omega) fits rfl

end Rule

theorem traceCategory_fits (levels : Nat) (category : Category) (fits : s.builder.Fits (nestingLimit + 5)) :
    (traceCategory levels category s).Fits (nestingLimit + 5) := by
  induction levels generalizing category s with
  | zero => exact Trace.failed_fits fits _
  | succ levels ih =>
      rw [traceCategory]
      split
      · exact Trace.failed_fits fits _
      · have reach := Grammar.reach_categoryRule category
        refine Rule.trace_fits (fun category s => ?_) (fun category s plain => ?_)
          (fun category s fits => ih category fits) _ (Grammar.categoryRule_entersKeys category)
          (fun never => by cases never) fits (by omega)
        · rw [outcome_traceCategory]
          exact enterCategory_keeps levels category s
        · rw [outcome_traceCategory]
          exact enterCategory_hosts levels category plain

end UmkaSyntax
