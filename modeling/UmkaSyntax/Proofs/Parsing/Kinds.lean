import UmkaSyntax.Proofs.Parsing.Liveness
import UmkaSyntax.Proofs.Parsing.Parts

namespace UmkaSyntax

def Rule.retags : Rule → List NodeKind
  | seq first second | branch _ first second => first.retags ++ second.retags
  | retag kind => [kind]
  | separated _ item before after => item.retags ++ before.retags ++ after.retags
  | recovering _ item | items _ _ item => item.retags
  | _ => []

theorem Grammar.retags_categoryRule (category : Category) : (categoryRule category).retags = [] := by
  cases category <;> rfl

variable {P : NodeKind → Prop} {below : List OpenNode}

namespace Builder

variable {b : Builder}

def Hosts (P : NodeKind → Prop) (below : List OpenNode) (b : Builder) : Prop :=
  ∀ n, n :: below <:+ b.top :: b.below → P n.kind

theorem hosts_of_suffix {own : OpenNode} (inside : own :: below <:+ b.top :: b.below)
    (kind : P own.kind) : b.Hosts P below := by
  intro n own
  obtain within | within := List.suffix_or_suffix_of_suffix inside own
  · obtain ⟨rfl, -⟩ := List.cons.inj (within.eq_of_length_le (Nat.le_refl _))
    exact kind
  · obtain ⟨rfl, -⟩ := List.cons.inj (within.eq_of_length_le (Nat.le_refl _))
    exact kind

theorem hosts_iff (same : b.below = below) : b.Hosts P below ↔ P b.top.kind := by
  subst same
  exact ⟨fun hosts => hosts b.top (List.suffix_refl _), hosts_of_suffix (List.suffix_refl _)⟩

theorem kind_closeDown {depth : Nat} {top : OpenNode} {rest : List OpenNode}
    (hosts : (Builder.mk top rest).Hosts P below) (inside : below <:+ rest)
    (hd : depth = below.length + 1) : P (closeDown depth top rest).top.kind := by
  have deeper : ∀ {outer : OpenNode} {more : List OpenNode}, ¬more.length + 2 ≤ depth →
      below <:+ outer :: more → below <:+ more := by
    intro outer more goes inside
    refine (List.suffix_cons_iff.mp inside).resolve_left ?_
    rintro rfl
    simp only [List.length_cons] at hd
    omega
  fun_induction closeDown depth top rest with
  | case1 top =>
      obtain rfl := List.suffix_nil.mp inside
      exact hosts top (List.suffix_refl _)
  | case2 top outer rest fits =>
      have all : below = outer :: rest := by
        refine inside.eq_of_length_le ?_
        simp only [List.length_cons]
        omega
      subst all
      exact hosts top (List.suffix_refl _)
  | case3 top outer rest goes empty ih =>
      exact ih (fun n own => hosts n (own.trans (List.suffix_cons _ _))) (deeper goes inside)
  | case4 top outer rest goes filled ih =>
      refine ih (fun n own => ?_) (deeper goes inside)
      obtain same | own := List.suffix_cons_iff.mp own
      · obtain ⟨rfl, rfl⟩ := List.cons.inj same
        rw [(OpenNode.kind_add _ _).1]
        exact hosts outer (List.suffix_cons _ _)
      · exact hosts n ((own.trans (List.suffix_cons _ _)).trans (List.suffix_cons _ _))

end Builder

namespace State

theorem kind_takeAs (f : Token → Token) (s : State) :
    (s.takeAs f).builder.top.kind = s.builder.top.kind := by
  unfold takeAs
  split
  · rfl
  · exact (OpenNode.kind_add _ _).1

theorem kind_takeWhile (look : Look) (s : State) :
    (s.takeWhile look).builder.top.kind = s.builder.top.kind := by
  suffices taken : ∀ count s, (takeUpTo look count s).builder.top.kind = s.builder.top.kind from
    taken _ s
  intro count
  induction count with
  | zero => exact fun _ => rfl
  | succ count ih =>
      intro s
      rw [takeUpTo]
      split
      · rw [ih, take, kind_takeAs]
      · rfl

theorem kind_takeLiteral (kind : NodeKind) (flavor : Flavor) (s : State) :
    (s.takeLiteral kind flavor).builder.top.kind = s.builder.top.kind := by
  unfold takeLiteral
  split
  · rfl
  · exact (OpenNode.kind_add _ _).1

theorem kind_discard (count : Nat) (s : State) :
    (s.discard count).builder.top.kind = s.builder.top.kind := by
  unfold discard
  dsimp only
  split
  · rfl
  · exact (OpenNode.kind_add _ _).1

theorem kind_recover {s : State} (hosts : s.builder.Hosts P below) (inside : below <:+ s.builder.below)
    (e : SyntaxError) (sync : SyncSet) :
    P (s.recover e (below.length + 1) sync).builder.top.kind := by
  have closed : P (s.builder.closeTo (below.length + 1)).top.kind :=
    Builder.kind_closeDown hosts inside rfl
  simp only [recover]
  split
  · rwa [kind_discard]
  · change P (State.discard _ _).builder.top.kind
    rwa [kind_discard]

end State

namespace Outcome

def Hosts (P : NodeKind → Prop) (below : List OpenNode) (outcome : Outcome) : Prop :=
  outcome.final.builder.Hosts P below

variable {outcome : Outcome}

theorem Hosts.andThen {next : State → Outcome} (hosts : outcome.Hosts P below)
    (keeps : outcome.Keeps below)
    (second : ∀ t, t.builder.below = below → P t.builder.top.kind → (next t).Hosts P below) :
    (outcome.andThen next).Hosts P below := by
  cases outcome with
  | ok t => exact second t keeps ((Builder.hosts_iff keeps).mp hosts)
  | failed e t => exact hosts

theorem Hosts.kind_of_ok (hosts : outcome.Hosts P below) (keeps : outcome.Keeps below) {t : State}
    (ran : outcome = .ok t) : P t.builder.top.kind := by
  subst ran
  exact (Builder.hosts_iff keeps).mp hosts

theorem Hosts.kind_recovered {s : State} (hosts : outcome.Hosts P s.builder.below)
    (keeps : outcome.Keeps s.builder.below) (sync : SyncSet) :
    P (outcome.recovered s.depth sync).builder.top.kind := by
  cases outcome with
  | ok t => exact (Builder.hosts_iff keeps).mp hosts
  | failed e t => exact State.kind_recover hosts keeps e sync

theorem Keeps.hosts_closed {outer : OpenNode} (keeps : outcome.Keeps (outer :: below))
    (kind : P outer.kind) :
    (outcome.andThen fun t => .ok (t.onBuilder Builder.close)).Hosts P below := by
  cases outcome with
  | ok t =>
      change t.builder.close.Hosts P below
      rw [Builder.close_of_below keeps]
      refine (Builder.hosts_iff (b := ⟨_, below⟩) rfl).mpr ?_
      rwa [(OpenNode.kind_add _ _).1]
  | failed e t =>
      have inside : outer :: below <:+ t.builder.below := keeps
      exact Builder.hosts_of_suffix (inside.trans (List.suffix_cons _ _)) kind

end Outcome

namespace Rule
open Outcome

theorem runSeparated_hosts {go : Look} {item before after : State → Outcome}
    (ki : ∀ s, (item s).Keeps s.builder.below) (kb : ∀ s, (before s).Keeps s.builder.below)
    (ka : ∀ s, (after s).Keeps s.builder.below)
    (hi : ∀ s, P s.builder.top.kind → (item s).Hosts P s.builder.below)
    (hb : ∀ s, P s.builder.top.kind → (before s).Hosts P s.builder.below)
    (ha : ∀ s, P s.builder.top.kind → (after s).Hosts P s.builder.below) (rounds : Nat) {s : State}
    (kind : P s.builder.top.kind) :
    (runSeparated go item before after rounds s).Hosts P s.builder.below := by
  induction rounds generalizing s with
  | zero => exact (Builder.hosts_iff rfl).mpr kind
  | succ rounds ih =>
      rw [runSeparated]
      split
      · refine (hi s kind).andThen (ki s) fun t ht kind => ?_
        rw [← ht]
        refine (hb t kind).andThen (kb t) fun u hu kind => ?_
        rw [← hu]
        split
        · have same := State.below_takeAs id u
          have taken : P u.take.builder.top.kind := (State.kind_takeAs id u).symm ▸ kind
          rw [← same]
          exact (ha _ taken).andThen (ka _) fun v hv kind => hv ▸ ih kind
        · exact (Builder.hosts_iff rfl).mpr kind
      · exact (Builder.hosts_iff rfl).mpr kind

theorem kind_itemRound (sync : SyncSet) {item : State → Outcome} {s : State}
    (keeps : (item s).Keeps s.builder.below) (hosts : (item s).Hosts P s.builder.below) :
    P (itemRound sync item s).builder.top.kind := by
  have recovered := hosts.kind_recovered keeps sync
  simp only [itemRound]
  split
  · rwa [State.skipStuck, State.kind_discard]
  · exact recovered

theorem Rounds.kind {sync : SyncSet} {item : State → Outcome}
    (ki : ∀ s, (item s).Keeps s.builder.below)
    (hi : ∀ s, P s.builder.top.kind → (item s).Hosts P s.builder.below) {s t : State}
    (rounds : Rounds sync item s t) (kind : P s.builder.top.kind) : P t.builder.top.kind := by
  induction rounds with
  | refl => exact kind
  | @tail u _ _ round ih =>
      cases round with
      | terminators => exact (State.kind_takeWhile _ u).symm ▸ ih
      | item => exact kind_itemRound _ (ki u) (hi u ih)

/-- Where the rule gives the open node only kinds of some sort, it stays of that sort. -/
theorem run_hosts {enter : Category → State → Outcome}
    (ke : ∀ category s, (enter category s).Keeps s.builder.below)
    (he : ∀ category s, P s.builder.top.kind → (enter category s).Hosts P s.builder.below)
    (rule : Rule) (allowed : ∀ kind ∈ rule.retags, P kind) {s : State} (kind : P s.builder.top.kind) :
    (rule.run enter s).Hosts P s.builder.below := by
  have keeps := fun rule => run_keeps ke rule
  have same : ∀ {t : State}, t.builder.below = s.builder.below → P t.builder.top.kind →
      (ok t).Hosts P s.builder.below := fun eq own => (Builder.hosts_iff eq).mpr own
  -- Only a change of kind matters. What a node inside does to its own kind is undone when it is
  -- closed.
  induction rule generalizing s with
  | done | fail | report | announce | labelNext => exact same rfl kind
  | seq first second ih₁ ih₂ =>
      simp only [retags, List.mem_append] at allowed
      refine (ih₁ (fun k mem => allowed k (.inl mem)) kind same).andThen (keeps first s)
        fun t ht own => ?_
      rw [← ht] at same ⊢
      exact ih₂ (fun k mem => allowed k (.inr mem)) own same
  | branch look yes no ih₁ ih₂ =>
      simp only [retags, List.mem_append] at allowed
      rw [run]
      split
      · exact ih₁ (fun k mem => allowed k (.inl mem)) kind same
      · exact ih₂ (fun k mem => allowed k (.inr mem)) kind same
  | take => exact same (State.below_takeAs id s) ((State.kind_takeAs id s).symm ▸ kind)
  | takeKeyword => exact same (State.below_takeAs _ s) ((State.kind_takeAs _ s).symm ▸ kind)
  | takeWhile look =>
      exact same (State.below_takeWhile look s) ((State.kind_takeWhile look s).symm ▸ kind)
  | literal literalKind flavor =>
      exact same (State.below_takeLiteral literalKind flavor s)
        ((State.kind_takeLiteral literalKind flavor s).symm ▸ kind)
  | label field => exact same rfl ((OpenNode.kind_nameLast field s.builder.top).1.symm ▸ kind)
  | retag other => exact same rfl (allowed other (List.mem_singleton_self other))
  | node other body =>
      exact (keeps body (s.onBuilder (Builder.startNode other s.offset))).hosts_closed kind
  | wrapLast other body =>
      exact (keeps body (s.onBuilder (Builder.startAroundLast other s.offset))).hosts_closed kind
  | nested category => exact he category s kind
  | separated go item before after ih₁ ih₂ ih₃ =>
      simp only [retags, List.mem_append] at allowed
      have all : ∀ t : State, ∀ {u : State}, u.builder.below = t.builder.below →
          P u.builder.top.kind → (ok u).Hosts P t.builder.below :=
        fun _ _ eq own => (Builder.hosts_iff eq).mpr own
      exact runSeparated_hosts (keeps item) (keeps before) (keeps after)
        (fun t own => ih₁ (fun k mem => allowed k (.inl (.inl mem))) own (all t))
        (fun t own => ih₂ (fun k mem => allowed k (.inl (.inr mem))) own (all t))
        (fun t own => ih₃ (fun k mem => allowed k (.inr mem)) own (all t)) _ kind
  | recovering sync item ih =>
      exact same ((keeps item s).below_recovered sync)
        ((ih allowed kind same).kind_recovered (keeps item s) sync)
  | items stop sync item ih =>
      have rounds := runItems_rounds stop sync (item.run enter) (s.rest.length + 1) s
      refine same (rounds.below (keeps item)) (rounds.kind (keeps item) (fun t own => ?_) kind)
      exact ih allowed own fun eq own => (Builder.hosts_iff eq).mpr own

end Rule

theorem enterCategory_hosts (levels : Nat) (category : Category) {s : State}
    (kind : P s.builder.top.kind) : (enterCategory levels category s).Hosts P s.builder.below := by
  have same : (Outcome.failed (s.errorHere .tooDeep) s).Hosts P s.builder.below :=
    (Builder.hosts_iff rfl).mpr kind
  induction levels generalizing category s with
  | zero => exact same
  | succ levels ih =>
      rw [enterCategory]
      split
      · exact same
      · refine Rule.run_hosts (enterCategory_keeps levels)
          (fun category s own => ih category own ((Builder.hosts_iff rfl).mpr own)) _ (fun k mem => ?_) kind
        rw [Grammar.retags_categoryRule] at mem
        cases mem

end UmkaSyntax
