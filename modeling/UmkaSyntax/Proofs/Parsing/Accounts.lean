import Mathlib.Algebra.Order.Group.Multiset
import UmkaSyntax.Proofs.Parsing.Blame
import UmkaSyntax.Proofs.Termination
import UmkaSyntax.Proofs.Tree.Preorder

/-!
Error nodes and the errors that pay for them. At every moment of a parse the starts of the error
nodes, those still open included, are among the starts of the errors recorded so far, each as often
as it occurs.
-/

namespace UmkaSyntax

/-! ## What a tree owes -/

def firstStart (tokens : List Token) : Option Nat := tokens.head?.map (·.span.start)

theorem firstStart_append (left right : List Token) :
    firstStart (left ++ right) = (firstStart left).or (firstStart right) := by
  cases left with
  | nil => rfl
  | cons t left => rfl

namespace LiteralParts

theorem firstStart_trailLast (trivia : List Trivia) (pieces : List LiteralPiece) :
    firstStart ((trailLast trivia pieces).flatMap LiteralPiece.tokens) =
      firstStart (pieces.flatMap LiteralPiece.tokens) := by
  fun_induction trailLast trivia pieces with
  | case1 => rfl
  | case2 last => cases last <;> rfl
  | case3 piece more _ ih => rw [List.flatMap_cons, List.flatMap_cons, firstStart_append, ih,
      ← firstStart_append]

theorem firstStart_ofToken (flavor : Flavor) (t : Token) :
    firstStart (ofToken flavor t).tokens = some t.span.start := by
  simp only [tokens, ofToken, dress, firstStart_trailLast]
  rfl

end LiteralParts

theorem State.firstStart_salvage (t : Token) : firstStart (salvage t).1.tokens = some t.span.start := by
  unfold salvage
  split
  · rw [Child.tokens, LiteralParts.tokens_toNode, LiteralParts.firstStart_ofToken]
  · rw [Child.tokens, LiteralParts.tokens_toNode, LiteralParts.firstStart_ofToken]
  · rfl

def oneStart (start : Option Nat) : Multiset Nat := ↑start.toList

theorem oneStart_le_or (first second : Option Nat) : oneStart first ≤ oneStart (first.or second) := by
  cases first with
  | none => exact Multiset.zero_le _
  | some start => exact le_refl _

def Node.errorStarts (n : Node) : Multiset Nat :=
  ↑((n.allOfKind .error).filterMap (firstStart ·.tokens))

def Child.errorStarts : Child → Multiset Nat
  | .token _ => 0
  | .node n => n.errorStarts

def Child.errorStartsOf (children : List Child) : Multiset Nat := (children.map errorStarts).sum

theorem Node.errorStarts_ofChildren (kind : NodeKind) (children : List Child) (fields : List Field)
    (offset : Nat) :
    (Node.ofChildren kind children fields offset).errorStarts =
      (if kind = .error then oneStart (firstStart (Child.tokensOf children)) else 0) +
        Child.errorStartsOf children := by
  have inside : ∀ children : List Child,
      (↑(((children.filterMap Child.node?).flatMap (·.allOfKind .error)).filterMap
        (firstStart ·.tokens)) : Multiset Nat) = Child.errorStartsOf children := by
    intro children
    induction children with
    | nil => rfl
    | cons child more ih =>
        rw [Child.errorStartsOf, List.map_cons, List.sum_cons]
        cases child with
        | token t => exact ih.trans (Multiset.zero_add _).symm
        | node n =>
            have first : (Child.node n :: more).filterMap Child.node? =
                n :: more.filterMap Child.node? := rfl
            rw [first, List.flatMap_cons, List.filterMap_append, ← Multiset.coe_add]
            exact congrArg (n.errorStarts + ·) ih
  rw [errorStarts, allOfKind_eq, List.filterMap_append, ← Multiset.coe_add]
  refine congrArg₂ (· + ·) ?_ (inside children)
  have own : (Node.ofChildren kind children fields offset).kind = kind := by rw [Node.ofChildren.eq_def]
  rw [own]
  split
  · rw [List.filterMap_cons, Node.tokens_ofChildren]
    cases firstStart (Child.tokensOf children) <;> rfl
  · rfl

theorem Child.errorStartsOf_append (left right : List Child) :
    errorStartsOf (left ++ right) = errorStartsOf left + errorStartsOf right := by
  rw [errorStartsOf, List.map_append, List.sum_append]
  rfl

theorem Child.errorStartsOf_singleton (child : Child) : errorStartsOf [child] = child.errorStarts := by
  simp [errorStartsOf]

namespace OpenNode

def errorStarts (n : OpenNode) : Multiset Nat := Child.errorStartsOf n.children.toList

theorem errorStarts_add (child : Child) (n : OpenNode) :
    (n.add child).errorStarts = n.errorStarts + child.errorStarts := by
  rw [errorStarts, children_add, Array.toList_push, Child.errorStartsOf_append,
    Child.errorStartsOf_singleton]
  rfl

theorem errorStarts_toNode (n : OpenNode) :
    n.toNode.errorStarts =
      (if n.kind = .error then oneStart (firstStart n.tokens) else 0) + n.errorStarts :=
  Node.errorStarts_ofChildren _ _ _ _

end OpenNode

/-! ## What the open nodes owe -/

namespace Builder

/-- The starts of the error nodes in open nodes, given from the inside out, and of those among them
that will be error nodes. These start with the first token that they have or will have. -/
def due (ahead : List Token) : List OpenNode → Multiset Nat
  | [] => 0
  | n :: outer =>
      (if n.kind = .error then oneStart (firstStart (n.tokens ++ ahead)) else 0) + n.errorStarts +
        due (n.tokens ++ ahead) outer

theorem due_congr {ahead ahead' : List Token} (same : firstStart ahead = firstStart ahead')
    (nodes : List OpenNode) : due ahead nodes = due ahead' nodes := by
  induction nodes generalizing ahead ahead' with
  | nil => rfl
  | cons n outer ih =>
      have longer : firstStart (n.tokens ++ ahead) = firstStart (n.tokens ++ ahead') := by
        rw [firstStart_append, firstStart_append, same]
      rw [due, due, longer, ih longer]

theorem due_add (child : Child) (ahead : List Token) (top : OpenNode) (below : List OpenNode) :
    due ahead (top.add child :: below) =
      child.errorStarts + due (child.tokens ++ ahead) (top :: below) := by
  rw [due, due, (OpenNode.kind_add child top).1, OpenNode.tokens_add, OpenNode.errorStarts_add, List.append_assoc]
  simp only [Multiset.ext, Multiset.count_add]
  omega

theorem due_close (ahead : List Token) (top outer : OpenNode) (below : List OpenNode) :
    due ahead (outer.add (.node top.toNode) :: below) ≤ due ahead (top :: outer :: below) := by
  have own : (if top.kind = .error then oneStart (firstStart top.tokens) else 0) ≤
      if top.kind = .error then oneStart (firstStart (top.tokens ++ ahead)) else 0 := by
    split
    · rw [firstStart_append]
      exact oneStart_le_or _ _
    · exact le_refl _
  rw [due_add, Child.errorStarts, OpenNode.errorStarts_toNode, Child.tokens, OpenNode.tokens_toNode,
    due.eq_2 ahead]
  exact Multiset.add_le_add_right (Multiset.add_le_add_right own)

theorem due_closeDown (ahead : List Token) (depth : Nat) (top : OpenNode) (below : List OpenNode) :
    due ahead ((closeDown depth top below).top :: (closeDown depth top below).below) ≤
      due ahead (top :: below) := by
  fun_induction closeDown depth top below with
  | case1 top => exact le_refl _
  | case2 top outer below fits => exact le_refl _
  | case3 top outer below fits empty ih =>
      refine le_trans ih ?_
      have nothing : top.tokens = [] := by
        simp only [OpenNode.tokens, Array.isEmpty_iff.mp empty]
        rfl
      rw [due.eq_2 ahead top, nothing, List.nil_append]
      exact Multiset.le_add_left _ _
  | case4 top outer below fits filled ih => exact le_trans ih (due_close ahead top outer below)

theorem due_startAroundLast (ahead : List Token) {kind : NodeKind} (other : kind ≠ .error)
    (offset : Nat) (b : Builder) :
    due ahead ((b.startAroundLast kind offset).top :: (b.startAroundLast kind offset).below) =
      due ahead (b.top :: b.below) := by
  have tokens := b.top.tokens_split (b.top.children.size - 1) kind offset
  have starts : (b.top.split (b.top.children.size - 1) kind offset).1.errorStarts +
      (b.top.split (b.top.children.size - 1) kind offset).2.errorStarts = b.top.errorStarts := by
    rw [OpenNode.errorStarts, OpenNode.errorStarts, ← Child.errorStartsOf_append,
      OpenNode.children_split]
    rfl
  change due ahead ((b.top.split (b.top.children.size - 1) kind offset).2 ::
    (b.top.split (b.top.children.size - 1) kind offset).1 :: b.below) = _
  have inner : (b.top.split (b.top.children.size - 1) kind offset).2.kind = kind := rfl
  have outer : (b.top.split (b.top.children.size - 1) kind offset).1.kind = b.top.kind := rfl
  rw [due, due, inner, outer, if_neg other, ← List.append_assoc, tokens, due, ← starts]
  simp only [Multiset.ext, Multiset.count_add, Multiset.count_zero]
  omega

end Builder

namespace State

def due (s : State) : Multiset Nat := Builder.due s.rest (s.builder.top :: s.builder.below)

/-- The starts of the syntax errors so far, those about the end of the input apart. -/
def paid (s : State) : Multiset Nat :=
  ↑((s.errors.toList.filter (·.kind == .syntactic)).map (·.span.start))

def here (s : State) : Multiset Nat := oneStart (firstStart s.rest)

/-- The errors pay for the error nodes, and for so many more. -/
structure Accounted (extra : Multiset Nat) (s : State) : Prop where
  proper : s.Proper
  covers : extra + s.due ≤ s.paid

variable {s t : State} {extra : Multiset Nat}

theorem Accounted.of_le (accounted : s.Accounted extra) (later : t.rest <:+ s.rest)
    (due : t.due ≤ s.due) (paid : t.paid = s.paid) : t.Accounted extra := by
  refine ⟨fun u mem => accounted.proper u (later.subset mem), ?_⟩
  rw [paid]
  exact le_trans (Multiset.add_le_add_left due) accounted.covers

theorem Accounted.spare (accounted : s.Accounted extra) : s.Accounted 0 := by
  refine ⟨accounted.proper, ?_⟩
  rw [Multiset.zero_add]
  exact le_trans (Multiset.le_add_left _ _) accounted.covers

theorem paid_recordLexical (errors : List LexicalError) (s : State) :
    (s.recordLexical errors).paid = s.paid := by
  have none : (errors.map ParseError.lexical).filter (·.kind == .syntactic) = [] := by
    simp [ParseError.kind]
  rw [paid, recordLexical, Array.toList_appendList, List.filter_append, none, List.append_nil]
  rfl

theorem paid_record (e : SyntaxError) (s : State) :
    (s.record (.syntactic e)).paid =
      s.paid + if e.kind = .syntactic then {e.found.span.start} else 0 := by
  rw [paid, record, Array.toList_push, List.filter_append, List.map_append, ← Multiset.coe_add]
  refine congrArg (s.paid + ·) ?_
  by_cases plain : e.kind = .syntactic
  · simp [plain, ParseError.kind, ParseError.span]
  · simp [plain, ParseError.kind]

theorem due_added {taken rest : List Token} {child : Child} (ahead : s.rest = taken ++ rest)
    (begins : firstStart child.tokens = firstStart taken) :
    State.due { s with rest := rest, builder := s.builder.add child } = child.errorStarts + s.due := by
  rw [State.due, Builder.add, Builder.mapTop, Builder.due_add]
  refine congrArg (_ + ·) (Builder.due_congr ?_ _)
  rw [ahead, firstStart_append child.tokens, begins, ← firstStart_append]

theorem due_takeAs {f : Token → Token} (same : ∀ t, (f t).span = t.span) (s : State) :
    (s.takeAs f).due = s.due := by
  unfold takeAs
  split
  · rfl
  · rename_i t rest ahead
    have begins : firstStart (Child.token (f t)).tokens = firstStart [t] :=
      congrArg (fun span : Span => some span.start) (same t)
    exact (due_added ahead begins).trans (Multiset.zero_add _)

theorem span_asKeyword (t : Token) : (asKeyword t).span = t.span := by
  unfold asKeyword
  split <;> rfl

theorem allOfKind_literal {kind : NodeKind} (other : kind ≠ .error) (offset : Nat)
    (literal : LiteralParts) : (literal.toNode kind offset).allOfKind .error = [] := by
  have own : (literal.toNode kind offset).kind = kind := by
    rw [LiteralParts.toNode, Node.ofChildren.eq_def]
  rw [Node.allOfKind_eq, own, if_neg other, List.nil_append, List.flatMap_eq_nil_iff]
  intro n mem
  obtain ⟨child, isChild, same⟩ := List.mem_filterMap.mp mem
  obtain ⟨piece, -, rfl⟩ := List.mem_map.mp
    (show child ∈ literal.pieces.map LiteralPiece.toChild from isChild)
  cases piece with
  | token => cases same
  | module name suffix =>
      cases same
      rw [Node.allOfKind_eq]
      rfl

theorem errorStarts_literal {kind : NodeKind} (other : kind ≠ .error) (offset : Nat)
    (literal : LiteralParts) : (literal.toNode kind offset).errorStarts = 0 := by
  rw [Node.errorStarts, allOfKind_literal other]
  rfl

theorem due_takeLiteral {kind : NodeKind} (other : kind ≠ .error) (flavor : Flavor) (s : State) :
    (s.takeLiteral kind flavor).due = s.due := by
  unfold takeLiteral
  split
  · rfl
  · rename_i t rest ahead
    have begins : firstStart (Child.node
        ((LiteralParts.ofToken flavor t).toNode kind t.span.start)).tokens = firstStart [t] := by
      rw [Child.tokens, LiteralParts.tokens_toNode, LiteralParts.firstStart_ofToken]
      rfl
    refine (due_added ahead begins).trans ?_
    rw [Child.errorStarts, errorStarts_literal other, Multiset.zero_add]

theorem paid_takeAs (f : Token → Token) (s : State) : (s.takeAs f).paid = s.paid := by
  rw [paid, errors_takeAs, paid]

theorem paid_takeLiteral (kind : NodeKind) (flavor : Flavor) (s : State) :
    (s.takeLiteral kind flavor).paid = s.paid := by
  unfold takeLiteral
  split
  · rfl
  · exact paid_recordLexical _ _

theorem errorStarts_salvage (t : Token) : (salvage t).1.errorStarts = 0 := by
  unfold salvage
  split
  · exact errorStarts_literal (by decide) _ _
  · exact errorStarts_literal (by decide) _ _
  · rfl

theorem due_discard {count : Nat} {t : Token} {rest : List Token} (ahead : s.rest.take count = t :: rest) :
    (s.discard count).due = {t.span.start} + s.due := by
  unfold discard
  rw [ahead]
  simp only [List.map_cons, List.isEmpty_cons, Bool.false_eq_true, if_false]
  have begins : firstStart (Child.tokensOf ((salvage t).1 :: (rest.map salvage).map (·.1))) =
      some t.span.start := by
    rw [Child.tokensOf, firstStart_append, firstStart_salvage]
    rfl
  have inner : ∀ tokens : List Token, Child.errorStartsOf ((tokens.map salvage).map (·.1)) = 0 := by
    intro tokens
    induction tokens with
    | nil => rfl
    | cons u tokens ih =>
        rw [List.map_cons, List.map_cons, Child.errorStartsOf, List.map_cons, List.sum_cons,
          errorStarts_salvage]
        exact (Multiset.zero_add _).trans ih
  have split : s.rest = (t :: rest) ++ s.rest.drop count := by
    rw [← ahead, List.take_append_drop]
  refine (due_added split ?_).trans ?_
  · rw [Child.tokens, Node.tokens_ofChildren, begins]
    rfl
  · rw [Child.errorStarts, Node.errorStarts_ofChildren, if_pos rfl, begins]
    have none := inner (t :: rest)
    simp only [List.map_cons] at none
    rw [none, Multiset.add_zero]
    rfl

theorem paid_discard (count : Nat) (s : State) : (s.discard count).paid = s.paid := by
  unfold discard
  dsimp only
  split
  · rfl
  · exact paid_recordLexical _ _

theorem Accounted.takeAs (accounted : s.Accounted extra) {f : Token → Token}
    (same : ∀ t, (f t).span = t.span) : (s.takeAs f).Accounted extra :=
  accounted.of_le (rest_takeAs f s ▸ List.tail_suffix _) (le_of_eq (due_takeAs same s))
    (paid_takeAs f s)

theorem Accounted.takeLiteral (accounted : s.Accounted extra) {kind : NodeKind}
    (other : kind ≠ .error) (flavor : Flavor) : (s.takeLiteral kind flavor).Accounted extra :=
  accounted.of_le (rest_takeLiteral kind flavor s ▸ List.tail_suffix _)
    (le_of_eq (due_takeLiteral other flavor s)) (paid_takeLiteral kind flavor s)

theorem Accounted.mapTop (accounted : s.Accounted extra) {f : OpenNode → OpenNode}
    (children : (f s.builder.top).children = s.builder.top.children)
    (kind : (f s.builder.top).kind = .error → s.builder.top.kind = .error) :
    (s.onBuilder (Builder.mapTop f)).Accounted extra := by
  refine accounted.of_le (List.suffix_refl _) ?_ rfl
  change Builder.due _ (f s.builder.top :: s.builder.below) ≤ Builder.due _ (s.builder.top :: _)
  have tokens : (f s.builder.top).tokens = s.builder.top.tokens := by
    rw [OpenNode.tokens, children, OpenNode.tokens]
  have starts : (f s.builder.top).errorStarts = s.builder.top.errorStarts := by
    rw [OpenNode.errorStarts, children, OpenNode.errorStarts]
  rw [Builder.due, Builder.due, tokens, starts]
  refine Multiset.add_le_add_right (Multiset.add_le_add_right ?_)
  by_cases own : (f s.builder.top).kind = .error
  · rw [if_pos own, if_pos (kind own)]
    exact le_refl _
  · rw [if_neg own]
    exact Multiset.zero_le _

theorem Accounted.startNode {kind : NodeKind} {reported : Bool}
    (accounted : s.Accounted (if reported then s.here else 0))
    (paid : (kind != .error || reported) = true) :
    (s.onBuilder (Builder.startNode kind s.offset)).Accounted 0 := by
  have opened : (s.onBuilder (Builder.startNode kind s.offset)).due =
      (if kind = .error then s.here else 0) + s.due := by
    change Builder.due _ (OpenNode.empty kind s.offset :: s.builder.top :: s.builder.below) = _
    rw [Builder.due, OpenNode.tokens_empty, List.nil_append]
    exact congrArg (· + s.due) (Multiset.add_zero _)
  refine ⟨accounted.proper, ?_⟩
  rw [Multiset.zero_add, opened]
  by_cases isError : kind = .error
  · have reported : reported = true := by simpa [isError] using paid
    rw [if_pos isError]
    rw [reported, if_pos rfl] at accounted
    exact accounted.covers
  · rw [if_neg isError]
    exact accounted.spare.covers

theorem Accounted.startAroundLast (accounted : s.Accounted extra) {kind : NodeKind}
    (other : kind ≠ .error) :
    (s.onBuilder (Builder.startAroundLast kind s.offset)).Accounted extra :=
  accounted.of_le (List.suffix_refl _) (le_of_eq (Builder.due_startAroundLast _ other _ _)) rfl

theorem Accounted.record (accounted : s.Accounted 0) (issue : SyntaxIssue) :
    (s.record (.syntactic (s.errorHere issue))).Accounted s.here := by
  refine ⟨accounted.proper, ?_⟩
  rw [paid_record, Multiset.add_comm]
  have before : s.due ≤ s.paid := by simpa using accounted.covers
  refine add_le_add before ?_
  rw [here]
  cases ahead : s.rest with
  | nil => exact Multiset.zero_le _
  | cons t rest =>
      have current : s.current = t := by rw [current, ahead]; rfl
      have token : t.kind ≠ .endOfInput := accounted.proper t (by simp [ahead])
      have plain : (s.errorHere issue).kind = .syntactic := by
        unfold errorHere SyntaxError.kind
        rw [current]
        split <;> simp [token]
      rw [if_pos plain, errorHere, current]
      exact le_refl _

theorem Accounted.closeTo (accounted : s.Accounted extra) (depth : Nat) :
    (s.onBuilder (Builder.closeTo depth)).Accounted extra :=
  accounted.of_le (List.suffix_refl _) (Builder.due_closeDown _ depth _ _) rfl

theorem Accounted.discard (accounted : s.Accounted s.here) (count : Nat) :
    (s.discard count).Accounted 0 := by
  cases ahead : s.rest.take count with
  | nil =>
      have same : s.discard count = s := by
        unfold State.discard
        rw [ahead]
        rfl
      rw [same]
      exact accounted.spare
  | cons t rest =>
      have here : s.here = {t.span.start} := by
        rw [State.here, ← List.take_append_drop count s.rest, ahead]
        rfl
      refine ⟨fun u mem => accounted.proper u ?_, ?_⟩
      · rw [rest_discard] at mem
        exact List.mem_of_mem_drop mem
      · rw [Multiset.zero_add, due_discard ahead, paid_discard, ← here]
        exact accounted.covers

theorem Accounted.recover (accounted : s.Accounted 0) (issue : SyntaxIssue) (depth : Nat)
    (sync : SyncSet) : (s.recover (s.errorHere issue) depth sync).Accounted 0 := by
  let closed := (s.record (.syntactic (s.errorHere issue))).onBuilder (Builder.closeTo depth)
  have paid : closed.Accounted closed.here := (accounted.record issue).closeTo depth
  have skipped := paid.discard (skipLength sync.look 0 closed.rest)
  simp only [State.recover]
  split
  · exact skipped
  · exact ⟨skipped.proper, skipped.covers⟩

end State

namespace Outcome

def Accounted : Outcome → Prop
  | ok s => s.Accounted 0
  | failed e s => s.Accounted 0 ∧ ∃ issue, e = s.errorHere issue

theorem Accounted.closed {outcome : Outcome} (accounted : outcome.Accounted) :
    (outcome.andThen fun s => .ok (s.onBuilder Builder.close)).Accounted := by
  cases outcome with
  | ok s =>
      refine State.Accounted.of_le accounted (List.suffix_refl _) ?_ rfl
      change Builder.due _ (s.builder.close.top :: s.builder.close.below) ≤ _
      unfold Builder.close
      split
      · exact le_refl _
      · rename_i outer below inside
        rw [State.due, inside]
        exact Builder.due_close _ _ _ _
  | failed e s => exact accounted

theorem Accounted.recovered {outcome : Outcome} (accounted : outcome.Accounted) (depth : Nat)
    (sync : SyncSet) : (outcome.recovered depth sync).Accounted 0 := by
  cases outcome with
  | ok s => exact accounted
  | failed e s =>
      obtain ⟨accounted, issue, rfl⟩ := accounted
      exact accounted.recover issue depth sync

end Outcome

/-! ## What the grammar owes -/

namespace Rule

def isReport : Rule → Bool
  | report _ => true
  | _ => false

/-- Whether error nodes are opened only right after an error was reported. -/
def paysAhead (reported : Bool) : Rule → Bool
  | node kind body => (kind != .error || reported) && body.paysAhead false
  | wrapLast kind body => kind != .error && body.paysAhead false
  | retag kind | literal kind _ => kind != .error
  | seq first second => first.paysAhead reported && second.paysAhead first.isReport
  | branch _ yes no => yes.paysAhead reported && no.paysAhead reported
  | separated _ item before after =>
      item.paysAhead false && before.paysAhead item.isReport && after.paysAhead false
  | recovering _ item | items _ _ item => item.paysAhead false
  | _ => true

end Rule

theorem Grammar.rules_payAhead {rule : Rule} (mem : rule ∈ rules) : rule.paysAhead false = true := by
  have every : ∀ rule ∈ rules, rule.paysAhead false = true := by decide
  exact every rule mem

/-- An error that was reported at the next token pays for an error node. -/
theorem Rule.Ends.accounted {rule : Rule} {s : State} {outcome : Outcome} (ends : Ends rule s outcome)
    (reported : Bool) (pays : rule.paysAhead reported = true)
    (accounted : s.Accounted (if reported then s.here else 0)) : outcome.Accounted := by
  have idle : ∀ {u : State}, u.Accounted 0 → u.Accounted (if false then u.here else 0) := id
  induction ends generalizing reported with
  | done | takeWhileStop | noItem => exact accounted.spare
  | announce => exact accounted.spare.of_le (List.suffix_refl _) (le_refl _) rfl
  | label => exact accounted.spare.mapTop (OpenNode.children_nameLast _ _) (by
      unfold OpenNode.nameLast
      split <;> exact id)
  | labelNext => exact accounted.spare.mapTop rfl id
  | @retag kind s =>
      have other : kind ≠ .error := by simpa [paysAhead] using pays
      exact accounted.spare.mapTop rfl fun own => absurd own other
  | @fail issue => exact ⟨accounted.spare, issue, rfl⟩
  | @report issue => exact (accounted.spare.record issue).spare
  | take => exact accounted.spare.takeAs fun _ => rfl
  | takeKeyword => exact accounted.spare.takeAs State.span_asKeyword
  | @literal kind flavor s =>
      have other : kind ≠ .error := by simpa [paysAhead] using pays
      exact accounted.spare.takeLiteral other flavor
  | tooDeep => exact ⟨accounted.spare, .tooDeep, rfl⟩
  | @nested category _ _ _ _ ih =>
      have mem : Grammar.categoryRule category ∈ Grammar.rules :=
        List.mem_append_right _ (by cases category <;> simp)
      exact ih false (Grammar.rules_payAhead mem) (idle accounted.spare)
  | takeWhileMore _ _ _ ih => exact ih false rfl (accounted.spare.takeAs fun _ => rfl)
  | @seq first second s t outcome before _ ih₁ ih₂ =>
      simp only [paysAhead, Bool.and_eq_true] at pays
      refine ih₂ _ pays.2 ?_
      -- Right behind a report its error is still to be used.
      by_cases isReport : first.isReport = true
      · cases first with
        | report issue =>
            cases before
            exact accounted.spare.record issue
        | _ => cases isReport
      · rw [Bool.not_eq_true] at isReport
        rw [isReport]
        exact idle (ih₁ _ pays.1 accounted)
  | seqFailed _ ih =>
      simp only [paysAhead, Bool.and_eq_true] at pays
      exact ih _ pays.1 accounted
  | yes _ _ ih =>
      simp only [paysAhead, Bool.and_eq_true] at pays
      exact ih _ pays.1 accounted
  | no _ _ ih =>
      simp only [paysAhead, Bool.and_eq_true] at pays
      exact ih _ pays.2 accounted
  | node _ ih =>
      simp only [paysAhead, Bool.and_eq_true] at pays
      exact (ih false pays.2 (idle (accounted.startNode pays.1))).closed
  | wrapLast _ ih =>
      simp only [paysAhead, Bool.and_eq_true, bne_iff_ne] at pays
      exact (ih false pays.2 (idle (accounted.spare.startAroundLast pays.1))).closed
  | itemFailed _ _ ih =>
      simp only [paysAhead, Bool.and_eq_true] at pays
      exact ih false (by simpa [paysAhead] using pays.1) (idle accounted.spare)
  | lastItem _ _ _ ih =>
      simp only [paysAhead, Bool.and_eq_true] at pays
      exact ih false (by simpa [paysAhead] using pays.1) (idle accounted.spare)
  | gapFailed _ _ _ _ ih₁ ih₂ =>
      simp only [paysAhead, Bool.and_eq_true] at pays
      have item : State.Accounted 0 _ := ih₁ false (by simpa [paysAhead] using pays.1) (idle accounted.spare)
      exact ih₂ false pays.2 (idle (item.takeAs fun _ => rfl))
  | nextItem _ _ _ _ _ _ ih₁ ih₂ ih₃ =>
      have again := pays
      simp only [paysAhead, Bool.and_eq_true] at pays
      have item : State.Accounted 0 _ := ih₁ false (by simpa [paysAhead] using pays.1) (idle accounted.spare)
      exact ih₃ false again (idle (ih₂ false pays.2 (idle (item.takeAs fun _ => rfl))))
  | recovering _ ih => exact (ih false pays (idle accounted.spare)).recovered _ _
  | noMoreItems _ _ ih => exact ih false rfl accounted.spare
  | moreItems _ _ _ _ _ ih₁ ih₂ ih₃ =>
      have gap : State.Accounted 0 _ := ih₁ false rfl accounted.spare
      have item : State.Accounted 0 _ := ih₂ false pays gap
      exact ih₃ false pays item

end UmkaSyntax
