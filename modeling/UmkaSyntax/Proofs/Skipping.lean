import Mathlib.Data.List.Nodup
import Mathlib.Data.List.Perm.Basic
import UmkaSyntax.Proofs.Error.Order
import UmkaSyntax.Proofs.Parsing.Accounts
import UmkaSyntax.Proofs.Tree.Nodes

namespace UmkaSyntax

theorem exists_places {α β : Type} {members : List α} {p : α → Bool} {value : α → Nat}
    {wanted : List Nat} (among : wanted.Subperm ((members.filter p).map value))
    {takers : List β} {R : β → Nat → Prop} (wants : List.Forall₂ R takers wanted) :
    ∃ place : Fin takers.length → Fin members.length, Function.Injective place ∧
      ∀ i, p (members.get (place i)) = true ∧ R (takers.get i) (value (members.get (place i))) := by
  -- Members that are told apart by their places.
  let placed := members.zipIdx.filter (p ·.1)
  have forget : placed.map (value ·.1) = (members.filter p).map value := by
    have firsts : placed.map (·.1) = members.filter p := by
      conv_rhs => rw [← List.zipIdx_map_fst 0 members, List.filter_map]
      rfl
    rw [← firsts, List.map_map]
    rfl
  rw [← forget] at among
  obtain ⟨some, reordered, inside⟩ := among
  obtain ⟨chosen, kept, rfl⟩ := List.sublist_map_iff.mp inside
  have values : List.Forall₂ (fun v (m : α × Nat) => value m.1 = v)
      (chosen.map (value ·.1)) chosen := by
    rw [List.forall₂_map_left_iff, List.forall₂_same]
    exact fun _ _ => rfl
  obtain ⟨picks, agree, same⟩ := List.perm_comp_forall₂ reordered.symm values
  have known : ∀ m ∈ picks, p m.1 = true ∧ members[m.2]? = some m.1 := by
    intro m mem
    obtain ⟨isMember, holds⟩ := List.mem_filter.mp (kept.subset (same.subset mem))
    exact ⟨holds, List.mem_zipIdx_iff_getElem?.mp isMember⟩
  have distinct : (picks.map (·.2)).Nodup := by
    refine (same.map _).nodup_iff.mpr ((kept.trans List.filter_sublist).map _ |>.nodup ?_)
    rw [List.zipIdx_map_snd]
    exact List.nodup_range'
  have length : takers.length = picks.length := wants.length_eq.trans agree.length_eq
  refine ⟨fun i => ⟨(picks.get (i.cast length)).2, ?_⟩, ?_, ?_⟩
  · exact (List.getElem?_eq_some_iff.mp (known _ (List.get_mem _ _)).2).1
  · intro i j eq
    have sizes : ∀ k : Fin takers.length, k.1 < (picks.map (·.2)).length := by
      intro k
      rw [List.length_map, ← length]
      exact k.2
    have same : (⟨i, sizes i⟩ : Fin (picks.map (·.2)).length) = ⟨j, sizes j⟩ :=
      List.nodup_iff_injective_get.mp distinct (by simpa using Fin.mk.inj eq)
    exact Fin.ext (Fin.mk.inj same)
  · intro i
    obtain ⟨holds, found⟩ := known _ (List.get_mem picks (i.cast length))
    have own : members.get ⟨(picks.get (i.cast length)).2, (List.getElem?_eq_some_iff.mp found).1⟩ =
        (picks.get (i.cast length)).1 := by
      simpa using (List.getElem?_eq_some_iff.mp found).2
    have wanted : value (picks.get (i.cast length)).1 = wanted.get (i.cast wants.length_eq) :=
      agree.get (i.cast wants.length_eq).2 (i.cast length).2
    rw [own, wanted]
    exact ⟨holds, wants.get i.2 (i.cast wants.length_eq).2⟩

theorem State.Blames.offset_le {cs : List Char} {s t : State} (blames : s.Blames (TokenStream.ofText cs))
    (later : t.rest <:+ s.rest) (same : t.endOfInput = s.endOfInput) : s.offset ≤ t.offset := by
  obtain ⟨taken, eq⟩ := later
  obtain ⟨earlier, whole⟩ := blames.rest
  have ordered := (tokens_ordered (TokenStream.ofText_laid cs)).2
  rw [TokenStream.toList, ← whole, ← blames.endOfInput, ← eq, List.append_assoc, List.append_assoc]
    at ordered
  have ahead := (List.pairwise_append.mp ordered).2.1
  cases taken with
  | nil =>
      rw [List.nil_append] at eq
      rw [offset, current, ← eq, ← same]
      exact le_refl _
  | cons u taken =>
      have here : s.offset = u.span.start := by rw [offset, current, ← eq]; rfl
      have next : t.current ∈ taken ++ (t.rest ++ [s.endOfInput]) := by
        rw [current, same]
        cases t.rest with
        | nil => simp
        | cons v more => simp
      rw [here]
      obtain ⟨filled, before⟩ := (List.pairwise_cons.mp ahead).1 _ next
      exact le_trans filled before

theorem Node.Full.firstStart_eq {root : Node} (full : root.Full) {stop : Nat}
    (laid : Laid 0 (root.tokens.flatMap Token.stretches) stop) {n : Node} (within : n.Within root) :
    firstStart n.tokens = some n.span.start := by
  obtain ⟨filled, lies⟩ := (full.within within).placed
  obtain ⟨t, more, eq⟩ := List.exists_cons_of_ne_nil filled
  replace eq : n.tokens = t :: more := eq
  obtain ⟨before, after, tokens⟩ := within.tokens
  rw [tokens, List.flatMap_append, List.flatMap_append] at laid
  have span : n.span = hull n.tokens := (lies _ _ laid.part).1
  rw [span, eq]
  rfl

theorem filterMap_firstStart {nodes : List Node}
    (each : ∀ n ∈ nodes, firstStart n.tokens = some n.span.start) :
    nodes.filterMap (firstStart ·.tokens) = nodes.map (·.span.start) := by
  rw [← List.filterMap_eq_map]
  exact List.filterMap_congr each

namespace State

def errorNodes (s : State) : List Node :=
  (s.builder.top.children.toList.filterMap Child.node?).flatMap (·.allOfKind .error)

theorem kind_root (s : State) : s.root.kind = s.builder.top.kind := by
  rw [root, OpenNode.toNode, Node.ofChildren.eq_def]
  exact (OpenNode.kind_add _ _).1

theorem allOfKind_root {s : State} (other : s.builder.top.kind ≠ .error) :
    s.root.allOfKind .error = s.errorNodes := by
  have children : s.root.nodeChildren = s.builder.top.children.toList.filterMap Child.node? := by
    rw [root, OpenNode.toNode, Node.ofChildren.eq_def, Node.nodeChildren, OpenNode.children_add,
      Array.toList_push, List.filterMap_append]
    exact List.append_nil _
  rw [Node.allOfKind_eq, kind_root, if_neg other, children]
  rfl

theorem due_root {s : State} (alone : s.builder.below = []) (other : s.builder.top.kind ≠ .error) :
    s.due = ↑(s.errorNodes.filterMap (firstStart ·.tokens)) := by
  have rooted : s.root.errorStarts = s.builder.top.errorStarts := by
    have kind := (OpenNode.kind_add (.token s.endOfInput) s.builder.top).1
    rw [root, OpenNode.errorStarts_toNode, kind, if_neg other, OpenNode.errorStarts_add]
    exact (Multiset.zero_add _).trans (Multiset.add_zero _)
  rw [due, alone, Builder.due, if_neg other, Multiset.zero_add, ← rooted, Node.errorStarts,
    allOfKind_root other]
  exact Multiset.add_zero _

theorem salvage_errorNodes {t : Token} {n : Node} (same : (salvage t).1.node? = some n) :
    n.allOfKind .error = [] := by
  unfold salvage at same
  split at same
  · cases same
    exact allOfKind_literal (by decide) _ _
  · cases same
    exact allOfKind_literal (by decide) _ _
  · cases same

theorem errorNodes_discard {s : State} {count : Nat} (some : s.rest.take count ≠ []) :
    (s.discard count).builder.top.kind = s.builder.top.kind ∧
      ∃ n, (s.discard count).builder.top.children = s.builder.top.children.push (.node n) ∧
        (s.discard count).errorNodes = s.errorNodes ++ [n] := by
  obtain ⟨t, rest, ahead⟩ := List.exists_cons_of_ne_nil some
  unfold discard
  rw [ahead]
  simp only [List.map_cons, List.isEmpty_cons, Bool.false_eq_true, if_false]
  refine ⟨(OpenNode.kind_add _ _).1, _, OpenNode.children_add _ _, ?_⟩
  rw [errorNodes, recordLexical, Builder.add, Builder.mapTop, OpenNode.children_add,
    Array.toList_push, List.filterMap_append, List.flatMap_append]
  refine congrArg (s.errorNodes ++ ·) ?_
  change Node.allOfKind _ .error ++ [] = _
  rw [List.append_nil, Node.allOfKind_eq, if_pos (by rw [Node.ofChildren.eq_def])]
  refine congrArg (_ :: ·) (List.flatMap_eq_nil_iff.mpr fun n mem => ?_)
  obtain ⟨child, isChild, same⟩ := List.mem_filterMap.mp mem
  obtain ⟨pair, isPair, rfl⟩ := List.mem_map.mp
    (show child ∈ ((t :: rest).map salvage).map (·.1) from isChild)
  obtain ⟨u, -, rfl⟩ := List.mem_map.mp isPair
  exact salvage_errorNodes same

theorem Accounted.takeWhile {s : State} {extra : Multiset Nat} (accounted : s.Accounted extra)
    (look : Look) : (s.takeWhile look).Accounted extra := by
  suffices counted : ∀ count s, s.Accounted extra → (takeUpTo look count s).Accounted extra from
    counted _ s accounted
  intro count
  induction count with
  | zero => exact fun s accounted => accounted
  | succ count ih =>
      intro s accounted
      rw [takeUpTo]
      split
      · exact ih _ (accounted.takeAs fun _ => rfl)
      · exact accounted

/-- The errors pay for the error nodes of a finished parse; but where a fragment failed, its error
lies in front of the tokens that are left over. -/
theorem finish_accounted {cs : List Char} {outcome : Outcome} (accounted : outcome.Accounted)
    (blames : outcome.final.Blames (TokenStream.ofText cs)) :
    (finish outcome).Accounted 0 ∨
      ∃ (u : State) (start : Nat), u.Accounted {start} ∧ start ≤ u.offset ∧ u.rest ≠ [] ∧
        u.builder.below = [] ∧ (∃ e v, outcome = .failed e v) ∧
        finish outcome = u.discard u.rest.length := by
  have idle : ∀ v : State, v.rest = [] → v.discard v.rest.length = v := by
    intro v none
    unfold discard
    simp [none]
  -- After a success what is left over has an error of its own; after a failure the error of the
  -- failure is still to be used.
  cases outcome with
  | ok s =>
      left
      have before : (s.closeToRoot.takeWhile .terminator).Accounted 0 :=
        (Accounted.closeTo accounted 1).takeWhile _
      simp only [finish]
      split
      · rename_i none
        rw [idle _ (List.isEmpty_iff.mp none)]
        exact before
      · exact Accounted.discard (before.record .trailing) _
  | failed e s =>
      obtain ⟨accounted, issue, rfl⟩ := accounted
      let u := (s.record (.syntactic (s.errorHere issue))).closeToRoot.takeWhile .terminator
      have extra : u.Accounted s.here := ((accounted.record issue).closeTo 1).takeWhile _
      have steps : Steps s u := .head (.record s issue) (.head (.closeTo _ 1) (takeWhile_steps _ _))
      have later : s.offset ≤ u.offset :=
        blames.offset_le steps.advances.rest_suffix steps.advances.1
      have alone : u.builder.below = [] := by
        rw [below_takeWhile]
        exact Builder.below_closeTo List.nil_suffix
      by_cases none : u.rest = []
      · left
        have same : finish (.failed (s.errorHere issue) s) = u := idle u none
        rw [same]
        exact extra.spare
      · have here : s.here = {s.offset} := by
          rw [State.here, offset, current]
          cases ahead : s.rest with
          | nil => exact absurd (List.suffix_nil.mp (ahead ▸ steps.advances.rest_suffix)) none
          | cons t more => rfl
        exact .inr ⟨u, s.offset, here ▸ extra, later, none, alone, ⟨_, _, rfl⟩, rfl⟩

end State

section
open UmkaSyntax.Part

def errorChildren (parts : List Part) : List Node :=
  ((toChildren parts).filterMap Child.node?).filter (·.kind == .error)

theorem errorChildren_append (left right : List Part) :
    errorChildren (left ++ right) = errorChildren left ++ errorChildren right := by
  simp [errorChildren]

theorem Form.Sentence.errorChildren_eq_nil {form : Form} {parts : List Part} {next : TokenKind}
    (sentence : form.Sentence True parts next)
    (other : ∀ place ∈ form.places true, place.2.isError = false) : errorChildren parts = [] := by
  refine List.filter_eq_nil_iff.mpr fun n mem => ?_
  obtain ⟨child, isChild, same⟩ := List.mem_filterMap.mp mem
  rw [toChildren_eq_map] at isChild
  obtain ⟨part, isPart, rfl⟩ := List.mem_map.mp isChild
  obtain ⟨place, isPlace, -, fits⟩ := sentence.placed (fun _ => rfl) part isPart
  have stands := Symbol.Fits.stands fits
  cases shown : part.toChild with
  | token t =>
      rw [shown] at same
      cases same
  | node m =>
      rw [shown] at same stands
      cases same
      simpa using stands.kind_ne (other place isPlace)

theorem fragment_errorChildren {category : Category} {parts : List Part} {next : TokenKind}
    (sentence : (Form.fragment category).Sentence True parts next) :
    (errorChildren parts).length ≤ 1 := by
  obtain ⟨first, _, rfl, before, item, _, rfl, attempt, gap, skipped, rfl, terminators, last⟩ := sentence
  have none₁ := before.errorChildren_eq_nil (by decide)
  have none₂ := attempt.errorChildren_eq_nil (by cases category <;> decide)
  have none₃ := terminators.errorChildren_eq_nil (by decide)
  rw [errorChildren_append, errorChildren_append, errorChildren_append, none₁, none₂, none₃]
  refine le_trans (List.length_filter_le _ _) (le_trans (List.length_filterMap_le _ _) ?_)
  rw [length_toChildren]
  obtain ⟨-, part, rfl, -⟩ | none := last
  · exact le_refl _
  · rw [show skipped = [] from none]
    exact Nat.zero_le _

end

section
variable {entry : Entry} {source : String}

def ruled (entry : Entry) (source : String) : Outcome :=
  entry.rule.runWhole (State.initial entry.rootKind (TokenStream.ofText source.toList))

theorem ruled_accounted (entry : Entry) (source : String) : (ruled entry source).Accounted := by
  have mem : entry.rule ∈ Grammar.rules := List.mem_append_left _ (by cases entry <;> simp)
  have proper := State.initial_proper entry source
  have other : entry.rootKind ≠ .error := by cases entry <;> decide
  refine (Rule.runWhole_ends entry.rule_moves proper).accounted false (Grammar.rules_payAhead mem)
    ⟨proper, ?_⟩
  change 0 + ((if entry.rootKind = .error then _ else 0) + 0 + 0) ≤ _
  rw [if_neg other]
  exact Multiset.zero_le _

theorem ruled_blames (entry : Entry) (source : String) :
    (ruled entry source).final.Blames (TokenStream.ofText source.toList) :=
  (State.initial_blames _ _).steps (entry.rule.runWhole_reaches _).steps

def Asks (entry : Entry) (root n : Node) (start : Nat) : Prop :=
  start ≤ n.span.start ∧ (entry = .program ∨ .node n ∉ root.children → start = n.span.start)

theorem exists_wanted (entry : Entry) (source : String) :
    let last := parseStream entry (TokenStream.ofText source.toList)
    ∃ wanted : List Nat, List.Forall₂ (Asks entry last.root) (last.root.allOfKind .error) wanted ∧
      (↑wanted : Multiset Nat) ≤ last.paid := by
  intro last
  have full := root_full entry (TokenStream.ofText source.toList)
  have laid := (root_renders entry (TokenStream.ofText source.toList)).laid
    (TokenStream.ofText_laid source.toList)
  have other : last.builder.top.kind ≠ .error := by
    obtain ⟨parts, tree, -⟩ := parseStream_ofText_tree True entry source.toList fun _ => trivial
    rw [← State.kind_root, tree.kind_eq]
    cases entry <;> decide
  have alone : last.builder.below = [] := (State.finish_ends _).2
  have nodes := State.allOfKind_root other
  have each : ∀ n ∈ last.errorNodes, firstStart n.tokens = some n.span.start := by
    intro n mem
    rw [← nodes] at mem
    exact full.firstStart_eq laid (Node.mem_preorder_iff.mp (List.mem_of_mem_filter mem))
  have owed := State.due_root alone other
  rw [filterMap_firstStart each] at owed
  rw [nodes]
  obtain accounted | ⟨u, start, accounted, before, some, below, ⟨e, v, failed⟩, finished⟩ :=
    State.finish_accounted (ruled_accounted entry source) (ruled_blames entry source)
  · change last.Accounted 0 at accounted
    refine ⟨last.errorNodes.map (·.span.start), ?_, ?_⟩
    · rw [List.forall₂_map_right_iff, List.forall₂_same]
      exact fun n _ => ⟨le_refl _, fun _ => rfl⟩
    · have covers := accounted.covers
      rwa [Multiset.zero_add, owed] at covers
  · -- The last error node is the one that holds what a failed fragment left over.
    change last = u.discard u.rest.length at finished
    obtain ⟨t, more, ahead⟩ := List.exists_cons_of_ne_nil some
    have here : u.offset = t.span.start := by rw [State.offset, State.current, ahead]; rfl
    have taken : u.rest.take u.rest.length = t :: more := by rw [List.take_length, ahead]
    obtain ⟨kind, n, child, all⟩ := State.errorNodes_discard (taken ▸ List.cons_ne_nil t more)
    rw [← finished] at kind child all
    have owedBefore := State.due_root below (kind ▸ other)
    rw [filterMap_firstStart fun m mem => each m (all ▸ List.mem_append_left _ mem)] at owedBefore
    have begins : t.span.start = n.span.start := by
      have due : last.due = {t.span.start} + u.due := by
        rw [finished]
        exact State.due_discard taken
      rw [owed, owedBefore, all, List.map_append, ← Multiset.coe_add, Multiset.add_comm,
        Multiset.add_left_inj] at due
      exact (Multiset.singleton_inj.mp due).symm
    have isChild : Child.node n ∈ last.root.children := by
      rw [State.root, OpenNode.toNode, Node.ofChildren.eq_def, OpenNode.children_add, child]
      simp
    have fragment : entry ≠ .program := by
      rintro rfl
      obtain ⟨w, ran, -⟩ := program_ends (State.initial_proper .program source)
      exact absurd (ran.symm.trans failed) (by simp)
    refine ⟨u.errorNodes.map (·.span.start) ++ [start], ?_, ?_⟩
    · rw [all]
      refine List.rel_append ?_ (.cons ⟨begins ▸ here ▸ before, ?_⟩ .nil)
      · rw [List.forall₂_map_right_iff, List.forall₂_same]
        exact fun m _ => ⟨le_refl _, fun _ => rfl⟩
      · rintro (program | outside)
        · exact absurd program fragment
        · exact absurd isChild outside
    · have covers := accounted.covers
      rw [owedBefore, Multiset.add_comm] at covers
      rwa [← Multiset.coe_add, finished, State.paid_discard]

theorem subperm_unlimitedErrors {wanted : List Nat}
    (covers : (↑wanted : Multiset Nat) ≤
      (parseStream entry (TokenStream.ofText source.toList)).paid) :
    wanted.Subperm
      (((unlimitedErrors entry source).filter (·.kind == .syntactic)).map (·.span.start)) := by
  have none : ∀ errors : List LexicalError,
      (errors.map ParseError.lexical).filter (·.kind == .syntactic) = [] := by
    simp [ParseError.kind]
  have same := ((ParseError.sortByStart_perm ((TokenStream.ofText source.toList).errors.map .lexical ++
    (parseStream entry (TokenStream.ofText source.toList)).errors.toList)).filter
      (·.kind == .syntactic)).map (·.span.start)
  rw [List.filter_append, none, List.nil_append] at same
  exact (Multiset.coe_le.mp covers).trans same.symm.subperm

theorem TreeOf.errorChildren_le {tokens : List Token} {root : Node} {parts : List Part}
    (tree : TreeOf True entry tokens root parts) (fragment : entry ≠ .program) :
    (root.nodeChildren.filter (·.kind == .error)).length ≤ 1 := by
  have children : root.nodeChildren.filter (·.kind == .error) = errorChildren parts := by
    rw [Child.node.inj tree.tree]
    rfl
  obtain ⟨left, right, rfl, body, last⟩ := tree.sentence
  have none := last.errorChildren_eq_nil (by decide)
  rw [children, errorChildren_append, none, List.append_nil]
  cases entry with
  | program => exact absurd rfl fragment
  | type => exact fragment_errorChildren body
  | expression => exact fragment_errorChildren body

end

/-- Every error node has a plain syntax error of its own, and no two nodes have the same one. The
error points at the first token of the node; only at the root of a fragment, where there is at most
one error node, may it lie in front of it. -/
theorem errorNodes_have_errors (entry : Entry) (source : String) :
    ∃ bound, ∀ limit, bound ≤ limit →
      let root := (parse entry limit source).root
      let errors := (parse entry limit source).errors
      let skipped := root.allOfKind .error
      (∃ blame : Fin skipped.length → Fin errors.length, Function.Injective blame ∧
        ∀ i, (errors.get (blame i)).kind = .syntactic ∧
          (errors.get (blame i)).span.start ≤ (skipped.get i).span.start ∧
          (entry = .program ∨ .node (skipped.get i) ∉ root.children →
            (errors.get (blame i)).span.start = (skipped.get i).span.start)) ∧
      (entry ≠ .program → (root.nodeChildren.filter (·.kind == .error)).length ≤ 1) ∧
      (root.containsError = true → ∃ e ∈ errors, e.kind = .syntactic) := by
  obtain ⟨bound, unlimited⟩ := exists_unlimited entry source
  refine ⟨bound, fun limit enough => ?_⟩
  obtain ⟨wanted, asks, covers⟩ := exists_wanted entry source
  obtain ⟨blame, injective, blames⟩ := exists_places (subperm_unlimitedErrors covers) asks
  obtain ⟨parts, tree, -⟩ := parseStream_ofText_tree True entry source.toList fun _ => trivial
  rw [unlimited limit enough]
  refine ⟨⟨blame, injective, fun i => ?_⟩, tree.errorChildren_le, fun contains => ?_⟩
  · obtain ⟨kind, before, same⟩ := blames i
    exact ⟨by simpa using kind, before, same⟩
  · obtain ⟨n, mem, isError⟩ := List.any_eq_true.mp contains
    have skipped : n ∈ (parseStream entry (TokenStream.ofText source.toList)).root.allOfKind .error :=
      List.mem_filter.mpr ⟨mem, isError⟩
    obtain ⟨i, -⟩ := List.get_of_mem skipped
    exact ⟨_, List.get_mem _ (blame i), by simpa using (blames i).1⟩

end UmkaSyntax
