import UmkaSyntax.Proofs.Parsing.Seams

/-!
Runs of terminators over whole parses. That rules take only runs that belong to them is read off the
grammar: what a rule knows of the tokens around it follows it through the branches, and says that a
single token that is taken is no terminator, and that terminators are taken only where none was left.
-/

namespace UmkaSyntax
open State

/-- What is known of a state from the rules that led to it. -/
structure Outlook where
  ahead : Foresight
  token : Bool
  node : Bool
  tight : Bool
  deriving DecidableEq

namespace Outlook

def blind (node tight : Bool) : Outlook := ⟨[], false, node, tight⟩

def seen (look : Look) (o : Outlook) : Outlook where
  ahead := look.foresight.both o.ahead
  token := o.token || look.needsToken
  node := o.node
  tight := o.tight || look.refusesTerminators

def behind (node : Bool) (o : Outlook) : Outlook := ⟨o.ahead.tail, false, node, true⟩

def meet (a b : Outlook) : Outlook := blind (a.node && b.node) (a.tight && b.tight)

def refuses (o : Outlook) : Bool :=
  match o.ahead with
  | some role :: _ => role != .terminator
  | _ => false

end Outlook

namespace Rule

def keepsList (kind : NodeKind) (body : Rule) : Bool :=
  body.retags.all fun other => (other == .parameterList) == (kind == .parameterList)

/-- What is known when the rule has succeeded, if it takes all runs of terminators as a whole; `listed`
if the open node is a list of parameters. -/
def outlook (listed : Bool) : Rule → Outlook → Option Outlook
  | done, o | report _, o | announce, o | label _, o | labelNext _, o | retag _, o => some o
  | fail _, _ => some (.blind true true)
  | seq first second, o => (first.outlook listed o).bind (second.outlook listed)
  | branch look yes no, o =>
      (yes.outlook listed (o.seen look)).bind fun a => (no.outlook listed o).map a.meet
  | take, o | takeKeyword, o => if o.refuses then some (o.behind false) else none
  | literal _ _, o => some (o.behind o.token)
  | takeWhile look, o =>
      match look.terminators? with
      | some true => if o.tight then some (.blind false true) else none
      | some false => if listed then some (.blind false false) else none
      | none => none
  | node kind body, o =>
      if keepsList kind body then
        (body.outlook (kind == .parameterList) { o with node := false }).map fun a =>
          .blind true a.tight
      else none
  | wrapLast kind body, o =>
      if o.node && keepsList kind body then
        (body.outlook (kind == .parameterList) { o with node := false }).map fun a =>
          .blind true a.tight
      else none
  | nested _, o => if o.tight then some (.blind true true) else none
  | separated go item before after, o =>
      (after.outlook listed (.blind false true)).bind fun c =>
        (item.outlook listed ((Outlook.blind false (o.tight && c.tight)).seen go)).bind fun a =>
          (before.outlook listed a).map fun b => .blind false (o.tight && b.tight && c.tight)
  | recovering _ item, o => (item.outlook listed o).map fun a => .blind false a.tight
  | items _ _ item, o =>
      if o.tight then
        (item.outlook listed (.blind false true)).bind fun a =>
          if a.tight then some (.blind false true) else none
      else none

end Rule

theorem Grammar.categoryRule_outlook (category : Category) (listed : Bool) :
    ∃ o, (categoryRule category).outlook listed (.blind false true) = some o ∧
      o.node = true ∧ o.tight = true := by
  have known : ((categoryRule category).outlook listed (.blind false true)).any
      fun o => o.node && o.tight := by
    cases category <;> cases listed <;> decide
  obtain ⟨o, eq, flags⟩ := (Option.any_eq_true _ _).mp known
  exact ⟨o, eq, by simpa using flags⟩

theorem Entry.rule_outlook (entry : Entry) :
    ∃ o, entry.rule.outlook false (.blind false true) = some o ∧ o.tight = true := by
  have known : (entry.rule.outlook false (.blind false true)).any Outlook.tight := by
    cases entry <;> decide
  exact (Option.any_eq_true _ _).mp known

def State.EndsInNode (s : State) : Prop :=
  ∃ init n, s.builder.top.children.toList = init ++ [.node n]

theorem Foresight.Holds.tail {known : Foresight} {tokens : List Token} (holds : known.Holds tokens) :
    Foresight.Holds known.tail tokens.tail := by
  cases known with
  | nil => trivial
  | cons role known =>
      cases tokens with
      | nil => cases known <;> trivial
      | cons t tokens => exact holds.2

structure Outlook.Of (o : Outlook) (s : State) : Prop where
  ahead : o.ahead.Holds s.rest
  token : o.token = true → s.rest ≠ []
  node : o.node = true → s.EndsInNode
  tight : o.tight = true → s.Tight

namespace Outlook.Of

variable {o a b : Outlook} {s t : State}

theorem blind {node tight : Bool} (hn : node = true → s.EndsInNode) (ht : tight = true → s.Tight) :
    (Outlook.blind node tight).Of s :=
  ⟨trivial, nofun, hn, ht⟩

theorem unseen {tight : Bool} (ht : tight = true → s.Tight) : (Outlook.blind false tight).Of s :=
  .blind nofun ht

theorem seen (of : o.Of s) {look : Look} (holds : look.holds s.rest = true) : (o.seen look).Of s where
  ahead := (Look.foresight_holds holds).both of.ahead
  token known := (Bool.or_eq_true_iff.mp known).elim of.token fun needs =>
    Look.ne_nil_of_needsToken needs holds
  node := of.node
  tight known := by
    refine (Bool.or_eq_true_iff.mp known).elim of.tight fun refuses => ?_
    refine (Settled.of_head fun t head => ?_).tight
    obtain ⟨more, eq⟩ := List.head?_eq_some_iff.mp head
    rw [eq] at holds
    have other := Look.not_terminator refuses holds
    rwa [ne_eq, TokenKind.role_eq_terminator, Bool.not_eq_true] at other

theorem meet_left (of : a.Of s) : (a.meet b).Of s :=
  .blind (fun known => of.node (Bool.and_eq_true_iff.mp known).1)
    fun known => of.tight (Bool.and_eq_true_iff.mp known).1

theorem meet_right (of : b.Of s) : (a.meet b).Of s :=
  .blind (fun known => of.node (Bool.and_eq_true_iff.mp known).2)
    fun known => of.tight (Bool.and_eq_true_iff.mp known).2

theorem head (of : o.Of s) (refuses : o.refuses = true) :
    ∀ t ∈ s.rest.head?, t.kind.isTerminator = false := by
  intro t head
  obtain ⟨more, eq⟩ := List.head?_eq_some_iff.mp head
  have holds := of.ahead
  unfold Outlook.refuses at refuses
  split at refuses
  · rename_i role rest known
    rw [known, eq] at holds
    rw [← Bool.not_eq_true, ← TokenKind.role_eq_terminator, holds.1 role rfl]
    simpa using refuses
  · cases refuses

theorem behind (of : o.Of s) (rest : t.rest = s.rest.tail) {node : Bool}
    (hn : node = true → t.EndsInNode) (settled : t.Settled) : (o.behind node).Of t :=
  ⟨rest ▸ of.ahead.tail, nofun, hn, fun _ => settled.tight⟩

theorem same (of : o.Of s) (faults : s.Faulty → t.Faulty)
    (children : t.builder.top.children = s.builder.top.children) (seats : t.seats = s.seats)
    (rest : t.rest = s.rest) : o.Of t := by
  refine ⟨rest ▸ of.ahead, fun known => rest ▸ of.token known, fun known => ?_, fun known =>
    (of.tight known).same faults seats rest⟩
  obtain ⟨init, n, last⟩ := of.node known
  exact ⟨init, n, children ▸ last⟩

theorem opened (of : o.Of s) (faults : s.Faulty → t.Faulty) (seats : t.seats = s.seats)
    (rest : t.rest = s.rest) : Outlook.Of { o with node := false } t :=
  ⟨rest ▸ of.ahead, fun known => rest ▸ of.token known, nofun, fun known =>
    (of.tight known).same faults seats rest⟩

end Outlook.Of

namespace Outcome

def Settles (o : Outlook) : Outcome → Prop
  | ok t => t.Quiet ∧ o.Of t
  | failed _ t => t.Quiet

variable {a b : Outlook} {outcome : Outcome}

theorem Settles.mono (settles : outcome.Settles a) (weaker : ∀ t, a.Of t → b.Of t) :
    outcome.Settles b := by
  cases outcome with
  | ok t => exact ⟨settles.1, weaker t settles.2⟩
  | failed e t => exact settles

theorem Settles.andThen {next : State → Outcome} (first : outcome.Settles a)
    (second : ∀ t, outcome = .ok t → t.Quiet → a.Of t → (next t).Settles b) :
    (outcome.andThen next).Settles b := by
  cases outcome with
  | ok t => exact second t rfl first.1 first.2
  | failed e t => exact first

theorem Settles.recovered (settles : outcome.Settles a) (depth : Nat) (sync : SyncSet) :
    (outcome.recovered depth sync).Quiet ∧ (a.tight = true → (outcome.recovered depth sync).Tight) := by
  cases outcome with
  | ok t => exact ⟨settles.1, settles.2.tight⟩
  | failed e t =>
      obtain ⟨quiet, tight⟩ := State.recover_quiet settles e depth sync
      exact ⟨quiet, fun _ => tight⟩

theorem Settles.closed {outer : OpenNode} {below : List OpenNode} (settles : outcome.Settles a)
    (keeps : outcome.Keeps (outer :: below)) :
    (outcome.andThen fun t => .ok (t.onBuilder Builder.close)).Settles (.blind true a.tight) := by
  refine settles.andThen fun t ended quiet of => ?_
  subst ended
  have faults : t.Faulty → (t.onBuilder Builder.close).Faulty := (·.mono (Step.close t).steps)
  have seats : (t.onBuilder Builder.close).seats = t.seats := Builder.seats_close t.builder
  refine ⟨quiet.same faults seats rfl, .blind (fun _ => ?_) fun known =>
    (of.tight known).same faults seats rfl⟩
  refine ⟨outer.children.toList, t.builder.top.toNode, ?_⟩
  rw [onBuilder, Builder.close_of_below keeps, OpenNode.children_add, Array.toList_push]

end Outcome

namespace Rule
open Outcome

theorem runSeparated_settles {go : Look} {item before after : State → Outcome} {P : NodeKind → Prop}
    {a b c : Outlook} {tight : Bool}
    (ki : ∀ s, (item s).Keeps s.builder.below) (kb : ∀ s, (before s).Keeps s.builder.below)
    (ka : ∀ s, (after s).Keeps s.builder.below)
    (hi : ∀ s, P s.builder.top.kind → (item s).Hosts P s.builder.below)
    (hb : ∀ s, P s.builder.top.kind → (before s).Hosts P s.builder.below)
    (ha : ∀ s, P s.builder.top.kind → (after s).Hosts P s.builder.below)
    (si : ∀ s, P s.builder.top.kind → s.Quiet →
      ((Outlook.blind false (tight && c.tight)).seen go).Of s → (item s).Settles a)
    (sb : ∀ s, P s.builder.top.kind → s.Quiet → a.Of s → (before s).Settles b)
    (sa : ∀ s, P s.builder.top.kind → s.Quiet → (Outlook.blind false true).Of s → (after s).Settles c)
    (rounds : Nat) {s : State} (kind : P s.builder.top.kind) (quiet : s.Quiet)
    (start : (tight && c.tight) = true → s.Tight) :
    (runSeparated go item before after rounds s).Settles
      (.blind false (tight && b.tight && c.tight)) := by
  have stay : ∀ {s : State}, s.Quiet → ((tight && c.tight) = true → s.Tight) →
      (ok s).Settles (.blind false (tight && b.tight && c.tight)) := fun quiet start =>
    ⟨quiet, .unseen fun known => start (by simp_all)⟩
  -- What every round needs and leaves: the kind of the open node, a quiet state, and a tight one
  -- where item and gap keep it so.
  induction rounds generalizing s with
  | zero => exact stay quiet start
  | succ rounds ih =>
      rw [runSeparated]
      split
      · rename_i goes
        have known : (Outlook.blind false (tight && c.tight)).Of s := .unseen start
        have of := known.seen goes
        refine (si s kind quiet of).andThen fun t ran quiet of => ?_
        have kind := (hi s kind).kind_of_ok (ki s) ran
        refine (sb t kind quiet of).andThen fun u ran quiet of => ?_
        have kind := (hb t kind).kind_of_ok (kb t) ran
        split
        · rename_i comma
          have other : ∀ v ∈ u.rest.head?, v.kind.isTerminator = false :=
            (of.seen comma).head (by cases b with | mk ahead => cases ahead <;> rfl)
          obtain ⟨quiet, settled⟩ := takeAs_quiet quiet (·.mono (Step.take u).steps) other
          have kind : P u.take.builder.top.kind := (State.kind_takeAs id u).symm ▸ kind
          refine (sa _ kind quiet (.unseen fun _ => settled.tight)).andThen
            fun v ran quiet of => ?_
          have kind := (ha _ kind).kind_of_ok (ka _) ran
          exact ih kind quiet fun known => of.tight (by simp_all)
        · exact ⟨quiet, .unseen fun known => of.tight (by simp_all)⟩
      · exact stay quiet start

theorem itemRound_quiet (sync : SyncSet) {item : State → Outcome} {a : Outlook} {s : State}
    (reaches : (item s).Reaches s) (settles : (item s).Settles a) (tightens : a.tight = true)
    (head : ∀ t ∈ s.rest.head?, t.kind.isTerminator = false) :
    (itemRound sync item s).Quiet ∧ (itemRound sync item s).Tight := by
  obtain ⟨quiet, tight⟩ := settles.recovered s.depth sync
  simp only [itemRound]
  split
  · rename_i stuck
    have same := (reaches.recovered s.depth sync).rest_eq stuck
    refine discard_quiet (s := ((item s).recovered s.depth sync).note _) 1
      (quiet.same (·) rfl rfl) ((tight tightens).same (·) rfl rfl) fun t last u _ terminates => ?_
    -- the token that is skipped is none
    have own : t ∈ s.rest.head? := by
      rw [← same]
      cases rest : ((item s).recovered s.depth sync).rest with
      | nil => simp [State.note, rest] at last
      | cons v more => simpa [State.note, rest] using last
    simp [head t own] at terminates
  · exact ⟨quiet, tight tightens⟩

theorem runItems_settles {stop : Look} {sync : SyncSet} {item : State → Outcome}
    {P : NodeKind → Prop} {a : Outlook} (ri : ∀ s, (item s).Reaches s)
    (ki : ∀ s, (item s).Keeps s.builder.below)
    (hi : ∀ s, P s.builder.top.kind → (item s).Hosts P s.builder.below)
    (si : ∀ s, P s.builder.top.kind → s.Quiet → (Outlook.blind false true).Of s → (item s).Settles a)
    (tightens : a.tight = true) (rounds : Nat) {s : State} (kind : P s.builder.top.kind)
    (quiet : s.Quiet) (tight : s.Tight) :
    (runItems stop sync item rounds s).Quiet ∧ (runItems stop sync item rounds s).Tight := by
  induction rounds generalizing s with
  | zero => exact ⟨quiet, tight⟩
  | succ rounds ih =>
      obtain ⟨quiet, settled⟩ := takeWhile_quiet Look.terminators?_terminator quiet tight
      have kind : P (s.takeWhile .terminator).builder.top.kind :=
        (State.kind_takeWhile _ s).symm ▸ kind
      have head := head_takeWhile Look.terminators?_terminator s
      rw [runItems_succ]
      generalize s.takeWhile .terminator = s at quiet settled kind head ⊢
      split
      · exact ⟨quiet, settled.tight⟩
      · have settles := si s kind quiet (.unseen fun _ => settled.tight)
        obtain ⟨onward, fits⟩ := itemRound_quiet sync (ri s) settles tightens head
        exact ih (kind_itemRound sync (ki s) (hi s kind)) onward fits

section Tokens

variable {enter : Category → State → Outcome} {listed : Bool} {o a : Outlook} {s : State}

theorem takeAs_settles {f : Token → Token}
    (foreseen : (if o.refuses then some (o.behind false) else none) = some a)
    (other : ∀ t, t.kind.isTerminator = false → (f t).kind.isTerminator = false)
    (faults : s.Faulty → (s.takeAs f).Faulty) (quiet : s.Quiet) (of : o.Of s) :
    (ok (s.takeAs f)).Settles a := by
  rw [Option.ite_none_right_eq_some] at foreseen
  obtain ⟨refuses, ⟨⟩⟩ := foreseen
  obtain ⟨quiet, settled⟩ := takeAs_quiet quiet faults fun t head => other t (of.head refuses t head)
  exact ⟨quiet, of.behind (rest_takeAs f s) nofun settled⟩

theorem isTerminator_asKeyword (t : Token) (other : t.kind.isTerminator = false) :
    (asKeyword t).kind.isTerminator = false := by
  unfold asKeyword
  split
  · rfl
  · exact other

theorem takeWhile_settles {look : Look} (foreseen : (takeWhile look).outlook listed o = some a)
    (kind : (s.builder.top.kind == .parameterList) = listed) (quiet : s.Quiet) (of : o.Of s) :
    (ok (s.takeWhile look)).Settles a := by
  simp only [outlook] at foreseen
  split at foreseen
  · rename_i whole
    rw [Option.ite_none_right_eq_some] at foreseen
    obtain ⟨known, ⟨⟩⟩ := foreseen
    obtain ⟨quiet, settled⟩ := takeWhile_quiet whole quiet (of.tight known)
    exact ⟨quiet, .unseen fun _ => settled.tight⟩
  · rename_i lines
    rw [Option.ite_none_right_eq_some] at foreseen
    obtain ⟨isList, ⟨⟩⟩ := foreseen
    exact ⟨takeNewlines_quiet lines (kind.trans isList) quiet, .unseen nofun⟩
  · cases foreseen

theorem takeLiteral_settles (kind : NodeKind) (flavor : Flavor) (quiet : s.Quiet) (of : o.Of s) :
    (ok (s.takeLiteral kind flavor)).Settles (o.behind o.token) := by
  obtain ⟨quiet, settled⟩ := takeLiteral_quiet kind flavor quiet
  refine ⟨quiet, of.behind (rest_takeLiteral kind flavor s) (fun known => ?_) settled⟩
  obtain ⟨t, rest, ahead⟩ := List.exists_cons_of_ne_nil (of.token known)
  rw [takeLiteral, ahead]
  exact ⟨_, _, (congrArg Array.toList (OpenNode.children_add _ _)).trans Array.toList_push⟩

end Tokens

theorem keepsList_iff {kind : NodeKind} {body : Rule} : keepsList kind body = true ↔
    ∀ other ∈ body.retags, (other == .parameterList) = (kind == .parameterList) := by
  simp [keepsList]

/-- A rule that the grammar shows to take whole runs does so from every state that is as foreseen. -/
theorem run_settles {enter : Category → State → Outcome}
    (re : ∀ category s, (enter category s).Reaches s)
    (ke : ∀ category s, (enter category s).Keeps s.builder.below)
    (he : ∀ (P : NodeKind → Prop) category s, P s.builder.top.kind →
      (enter category s).Hosts P s.builder.below)
    (se : ∀ category s, s.Quiet → s.Tight → (enter category s).Settles (.blind true true))
    (rule : Rule) {listed : Bool} {o a : Outlook} (foreseen : rule.outlook listed o = some a)
    (allowed : ∀ kind ∈ rule.retags, (kind == .parameterList) = listed) {s : State}
    (kind : (s.builder.top.kind == .parameterList) = listed) (quiet : s.Quiet) (of : o.Of s) :
    (rule.run enter s).Settles a := by
  have reaches := fun rule => run_reaches re rule
  have keeps := fun rule => run_keeps ke rule
  have hosts : ∀ {listed : Bool} (rule : Rule),
      (∀ kind ∈ rule.retags, (kind == .parameterList) = listed) → ∀ s : State,
      (s.builder.top.kind == .parameterList) = listed →
      (rule.run enter s).Hosts (fun kind => (kind == .parameterList) = listed) s.builder.below :=
    fun rule allowed s kind => run_hosts ke (he _) rule allowed kind
  -- what closes a node around what the body has left
  have closed : ∀ {body : Rule} {a b : Outlook} {t : State} {outer : OpenNode}
      {below : List OpenNode}, t.builder.below = outer :: below →
      (body.run enter t).Settles a → Outlook.blind true a.tight = b →
      ((body.run enter t).andThen fun t => .ok (t.onBuilder Builder.close)).Settles b := by
    rintro body a b t outer under below settles rfl
    exact settles.closed (below ▸ keeps body t)
  -- What is foreseen is carried along the rule. `listed` goes with it, because only a list of
  -- parameters may take newlines and leave semicolons.
  induction rule generalizing listed o a s with
  | done =>
      cases foreseen
      exact ⟨quiet, of⟩
  | report issue =>
      cases foreseen
      have faults : s.Faulty → (s.record (.syntactic (s.errorHere issue))).Faulty :=
        (·.mono (Step.record s issue).steps)
      exact ⟨quiet.same faults rfl rfl, of.same faults rfl rfl rfl⟩
  | announce =>
      cases foreseen
      exact ⟨quiet.same (·) rfl rfl, of.same (·) rfl rfl rfl⟩
  | fail issue => exact quiet
  | seq first second ih₁ ih₂ =>
      obtain ⟨between, firstly, rest⟩ := Option.bind_eq_some_iff.mp foreseen
      simp only [retags, List.mem_append] at allowed
      refine (ih₁ firstly (fun k mem => allowed k (.inl mem)) kind quiet of).andThen
        fun t ran quiet of => ?_
      have hosted := hosts first (fun k mem => allowed k (.inl mem)) s kind
      exact ih₂ rest (fun k mem => allowed k (.inr mem)) (hosted.kind_of_ok (keeps first s) ran) quiet of
  | branch look yes no ih₁ ih₂ =>
      obtain ⟨b, positive, rest⟩ := Option.bind_eq_some_iff.mp foreseen
      obtain ⟨c, negative, rfl⟩ := Option.map_eq_some_iff.mp rest
      simp only [retags, List.mem_append] at allowed
      rw [run]
      split
      · rename_i holds
        exact (ih₁ positive (fun k mem => allowed k (.inl mem)) kind quiet (of.seen holds)).mono
          fun t of => of.meet_left
      · exact (ih₂ negative (fun k mem => allowed k (.inr mem)) kind quiet of).mono
          fun t of => of.meet_right
  | take => exact takeAs_settles foreseen (fun _ => id) (·.mono (Step.take s).steps) quiet of
  | takeKeyword =>
      exact takeAs_settles foreseen isTerminator_asKeyword (·.mono (Step.takeKeyword s).steps) quiet of
  | takeWhile look => exact takeWhile_settles foreseen kind quiet of
  | literal literalKind flavor =>
      cases foreseen
      exact takeLiteral_settles literalKind flavor quiet of
  | label field =>
      cases foreseen
      have kinds := (OpenNode.kind_nameLast field s.builder.top).1
      have children := OpenNode.children_nameLast field s.builder.top
      have faults : s.Faulty →
          (s.onBuilder (Builder.mapTop (OpenNode.nameLast field))).Faulty := id
      have seats := Builder.seats_of_same (b := s.builder)
        (c := s.builder.mapTop (OpenNode.nameLast field)) rfl (by rw [Builder.mapTop, kinds]) children
      exact ⟨quiet.same faults seats rfl, of.same faults children seats rfl⟩
  | labelNext field =>
      cases foreseen
      exact ⟨quiet.same (·) rfl rfl, of.same (·) rfl rfl rfl⟩
  -- The new kind is a list of parameters only if the old one is, so the seats do not change.
  | retag other =>
      cases foreseen
      have same := (allowed other (List.mem_singleton_self other)).trans kind.symm
      have seats := Builder.seats_of_same (b := s.builder)
        (c := s.builder.mapTop fun n => { n with kind := other }) rfl same rfl
      exact ⟨quiet.same id seats rfl, of.same id rfl seats rfl⟩
  | node other body ih =>
      rw [outlook, Option.ite_none_right_eq_some] at foreseen
      obtain ⟨keepsKind, foreseen⟩ := foreseen
      obtain ⟨b, inner, last⟩ := Option.map_eq_some_iff.mp foreseen
      have seats := Builder.seats_startNode other s.offset s.builder
      refine closed rfl ?_ last
      exact ih inner (keepsList_iff.mp keepsKind)
        (s := s.onBuilder (Builder.startNode other s.offset)) rfl (quiet.same id seats rfl)
        (of.opened id seats rfl)
  -- The child that moves into the new node is a node itself, so no run of terminators is cut.
  | wrapLast other body ih =>
      rw [outlook, Option.ite_none_right_eq_some, Bool.and_eq_true] at foreseen
      obtain ⟨⟨isNode, keepsKind⟩, foreseen⟩ := foreseen
      obtain ⟨b, inner, last⟩ := Option.map_eq_some_iff.mp foreseen
      obtain ⟨init, n, children⟩ := of.node isNode
      have seats := Builder.seats_startAroundLast children other s.offset
      refine closed rfl ?_ last
      exact ih inner (keepsList_iff.mp keepsKind)
        (s := s.onBuilder (Builder.startAroundLast other s.offset)) rfl (quiet.same id seats rfl)
        (of.opened id seats rfl)
  | nested category =>
      rw [outlook, Option.ite_none_right_eq_some] at foreseen
      obtain ⟨known, ⟨⟩⟩ := foreseen
      exact se category s quiet (of.tight known)
  | separated go item before after ih₁ ih₂ ih₃ =>
      obtain ⟨c, spaces, foreseen⟩ := Option.bind_eq_some_iff.mp foreseen
      obtain ⟨a, parts, foreseen⟩ := Option.bind_eq_some_iff.mp foreseen
      obtain ⟨b, gaps, rfl⟩ := Option.map_eq_some_iff.mp foreseen
      simp only [retags, List.mem_append] at allowed
      refine runSeparated_settles (P := fun kind => (kind == .parameterList) = listed)
        (keeps item) (keeps before) (keeps after)
        (hosts item fun k mem => allowed k (.inl (.inl mem)))
        (hosts before fun k mem => allowed k (.inl (.inr mem)))
        (hosts after fun k mem => allowed k (.inr mem))
        (fun t kind quiet of => ih₁ parts (fun k mem => allowed k (.inl (.inl mem))) kind quiet of)
        (fun t kind quiet of => ih₂ gaps (fun k mem => allowed k (.inl (.inr mem))) kind quiet of)
        (fun t kind quiet of => ih₃ spaces (fun k mem => allowed k (.inr mem)) kind quiet of)
        _ kind quiet fun known => of.tight (Bool.and_eq_true_iff.mp known).1
  | recovering sync item ih =>
      obtain ⟨b, inner, rfl⟩ := Option.map_eq_some_iff.mp foreseen
      obtain ⟨quiet, tight⟩ := (ih inner allowed kind quiet of).recovered s.depth sync
      exact ⟨quiet, .unseen tight⟩
  | items stop sync item ih =>
      rw [outlook, Option.ite_none_right_eq_some] at foreseen
      obtain ⟨known, foreseen⟩ := foreseen
      obtain ⟨b, inner, foreseen⟩ := Option.bind_eq_some_iff.mp foreseen
      rw [Option.ite_none_right_eq_some] at foreseen
      obtain ⟨tightens, ⟨⟩⟩ := foreseen
      obtain ⟨quiet, tight⟩ := runItems_settles
        (P := fun kind => (kind == .parameterList) = listed) (reaches item) (keeps item) (hosts item allowed)
        (fun t kind quiet of => ih inner allowed kind quiet of) tightens (s.rest.length + 1)
        kind quiet (of.tight known)
      exact ⟨quiet, .unseen fun _ => tight⟩

end Rule

theorem enterCategory_settles (levels : Nat) (category : Category) {s : State} (quiet : s.Quiet)
    (tight : s.Tight) : (enterCategory levels category s).Settles (.blind true true) := by
  induction levels generalizing category s with
  | zero => exact quiet
  | succ levels ih =>
      rw [enterCategory]
      split
      · exact quiet
      · obtain ⟨o, foreseen, node, tightens⟩ :=
          Grammar.categoryRule_outlook category (s.builder.top.kind == .parameterList)
        refine (Rule.run_settles (enterCategory_reaches levels) (enterCategory_keeps levels)
          (fun P category s kind => enterCategory_hosts levels category kind)
          (fun category s quiet tight => ih category quiet tight) _ foreseen (fun k mem => ?_) rfl quiet
          (.unseen fun _ => tight)).mono fun t of => ?_
        · rw [Grammar.retags_categoryRule] at mem
          cases mem
        · exact .blind (fun _ => of.node node) fun _ => of.tight tightens

theorem State.finish_quiet {outcome : Outcome} {o : Outlook} (settles : outcome.Settles o)
    (tight : o.tight = true) : (finish outcome).Quiet := by
  have last : ∀ {s : State}, s.Quiet → s.Tight → (s.discard s.rest.length).Quiet :=
    fun {s} quiet tight => (discard_quiet _ quiet tight (by simp)).1
  cases outcome with
  | ok s =>
      have seats : s.closeToRoot.seats = s.seats := Builder.seats_closeTo 1 s.builder
      obtain ⟨quiet, settled⟩ := takeWhile_quiet Look.terminators?_terminator
        (settles.1.same (t := s.closeToRoot) id seats rfl)
        ((settles.2.tight tight).same (t := s.closeToRoot) id seats rfl)
      simp only [finish]
      split
      · exact last quiet settled.tight
      · have faults := fun faulty : (s.closeToRoot.takeWhile .terminator).Faulty =>
          faulty.mono (Step.record _ .trailing).steps
        exact last (quiet.same faults rfl rfl) (settled.tight.same faults rfl rfl)
  | failed e s =>
      have seats : (s.record (.syntactic e)).closeToRoot.seats = s.seats :=
        Builder.seats_closeTo 1 s.builder
      have faulty : (s.record (.syntactic e)).closeToRoot.Faulty :=
        ⟨e, by simp [closeToRoot, onBuilder, record]⟩
      have closed : (s.record (.syntactic e)).closeToRoot.Quiet :=
        Quiet.same settles (fun _ => faulty) seats rfl
      obtain ⟨quiet, settled⟩ := takeWhile_quiet Look.terminators?_terminator closed
        fun _ _ _ _ _ => faulty
      exact last quiet settled.tight

theorem parseStream_quiet (entry : Entry) (stream : TokenStream) : (parseStream entry stream).Quiet := by
  obtain ⟨o, foreseen, tight⟩ := entry.rule_outlook
  have start : (State.initial entry.rootKind stream).seats = [] := rfl
  have quiet : (State.initial entry.rootKind stream).Quiet :=
    ⟨by rw [start]; exact List.isChain_nil, by simp [start]⟩
  refine State.finish_quiet (Rule.run_settles (enterCategory_reaches _) (enterCategory_keeps _)
    (fun P category s kind => enterCategory_hosts _ category kind)
    (fun category s => enterCategory_settles _ category) _ foreseen ?_ ?_ quiet
    (.unseen fun _ x last => by simp [start] at last)) tight
  · cases entry <;> decide
  · cases entry <;> rfl

/-- In the tree of a source, terminators that follow one another are siblings, but where a syntax
error was found also those that a list of parameters left behind. -/
theorem root_chain (entry : Entry) (stream : TokenStream)
    (ends : stream.endOfInput.kind.isTerminator = false) :
    (parseStream entry stream).root.seats.IsChain
      (Seat.Meets (parseStream entry stream).Faulty) := by
  have quiet := parseStream_quiet entry stream
  have alone : (parseStream entry stream).builder.below = [] := (State.finish_ends _).2
  have seats : (parseStream entry stream).seats = (parseStream entry stream).builder.top.seats := by
    rw [State.seats, Builder.seats, Builder.seatsOf, alone]
    rfl
  have atEnd : (parseStream entry stream).endOfInput = stream.endOfInput :=
    (parseStream_steps entry stream).advances.1
  rw [State.root, OpenNode.seats_toNode, OpenNode.seats_add, ← seats, Child.seats]
  refine quiet.chain.append (List.isChain_singleton _) fun x _ y head => ?_
  cases head
  exact Seat.meets_of_not_right (atEnd ▸ ends)

end UmkaSyntax
