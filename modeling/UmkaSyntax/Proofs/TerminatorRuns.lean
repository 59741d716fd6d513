import UmkaSyntax.Proofs.Parsing.Settling
import UmkaSyntax.Proofs.Soundness
import UmkaSyntax.Proofs.Tree.Leaves

/-!
A run of terminators is one event. Its tokens are neighbours in one node of the tree. Only a list of
parameters that was never finished keeps newlines in front of a semicolon for itself, and leaves the
rest of their run to another node.
-/

namespace UmkaSyntax
open UmkaSyntax.Part

theorem Part.Faithful.tokens_eq {leaf : Part} (faithful : leaf.Faithful) :
    ∃ t, leaf.tokens = [t] ∧ (t.kind.isTerminator = true → leaf.shown = [t]) := by
  cases leaf with
  | token label t => exact ⟨t, rfl, fun _ => rfl⟩
  | keyword label t =>
      refine ⟨t, rfl, fun terminates => ?_⟩
      rw [faithful.1] at terminates
      cases terminates
  | literal label kind t =>
      refine ⟨t, rfl, fun terminates => ?_⟩
      have splits : kind.splits t.kind = true := faithful
      cases other : t.kind <;> simp_all [NodeKind.splits, TokenKind.isTerminator]
  | node => exact faithful.elim

theorem shown_run_append {leaves : List Part} (faithful : ∀ leaf ∈ leaves, leaf.Faithful)
    {run after : List Token} (eq : leaves.flatMap Part.tokens = run ++ after)
    (terminators : ∀ t ∈ run, t.kind.isTerminator = true) :
    ∃ behind, leaves.flatMap Part.shown = run ++ behind := by
  induction leaves generalizing run with
  | nil =>
      obtain ⟨rfl, -⟩ := List.append_eq_nil_iff.mp eq.symm
      exact ⟨[], rfl⟩
  | cons leaf leaves ih =>
      cases run with
      | nil => exact ⟨_, rfl⟩
      | cons t run =>
          obtain ⟨own, others⟩ := List.forall_mem_cons.mp faithful
          obtain ⟨first, rest⟩ := List.forall_mem_cons.mp terminators
          obtain ⟨u, tokens, shown⟩ := own.tokens_eq
          rw [List.flatMap_cons, tokens, List.singleton_append, List.cons_append] at eq
          obtain ⟨rfl, tail⟩ := List.cons.inj eq
          obtain ⟨behind, more⟩ := ih others tail rest
          exact ⟨behind, by rw [List.flatMap_cons, shown first, more]; rfl⟩

theorem shown_run {leaves : List Part} (faithful : ∀ leaf ∈ leaves, leaf.Faithful)
    {before run after : List Token} (eq : leaves.flatMap Part.tokens = before ++ (run ++ after))
    (terminators : ∀ t ∈ run, t.kind.isTerminator = true) :
    ∃ front behind, leaves.flatMap Part.shown = front ++ (run ++ behind) := by
  induction before generalizing leaves with
  | nil =>
      rw [List.nil_append] at eq
      obtain ⟨behind, shown⟩ := shown_run_append faithful eq terminators
      exact ⟨[], behind, shown⟩
  | cons t before ih =>
      cases leaves with
      | nil => cases eq
      | cons leaf leaves =>
          obtain ⟨own, others⟩ := List.forall_mem_cons.mp faithful
          obtain ⟨u, tokens, -⟩ := own.tokens_eq
          rw [List.flatMap_cons, tokens] at eq
          obtain ⟨front, behind, shown⟩ := ih others (List.cons.inj eq).2
          exact ⟨leaf.shown ++ front, behind, by rw [List.flatMap_cons, shown, List.append_assoc]⟩

theorem Entry.places_parameterList (entry : Entry) : ∀ place ∈ entry.places true .parameterList,
    place.2 ≠ .token .semicolon ∧ place.2 ≠ .raw := by
  cases entry <;> decide

theorem Shown.not_semicolon {broken : Prop} {entry : Entry} {n : Node} (shown : Shown broken entry n)
    (isList : n.kind = .parameterList) {t : Token} (mem : .token t ∈ n.children) :
    t.kind ≠ .semicolon := by
  obtain ⟨i, child⟩ := List.mem_iff_getElem?.mp mem
  obtain ⟨symbol, isPlace, stands⟩ := shown.allows (b := true) (fun _ => rfl) child
  rw [isList] at isPlace
  have other := entry.places_parameterList _ isPlace
  cases symbol with
  | token kind =>
      obtain rfl : t.kind = kind := stands
      simpa using other.1
  | keyword k => simp [stands.1]
  | builtin family => simp [stands.1]
  | raw => exact absurd rfl other.2
  | literal | node => exact stands.elim

def Node.Holds (n : Node) (tokens : List Token) : Prop :=
  ∃ before after, n.children = before ++ tokens.map .token ++ after

def Node.KeepsRun (root : Node) (run : List Token) : Prop := ∃ n : Node, n.Within root ∧ n.Holds run

/-- The newlines that begin the run are in a list of parameters, and all of it from the first
semicolon on is in one node. -/
def Node.SplitsRun (root : Node) (run : List Token) : Prop :=
  ∃ lines rest, run = lines ++ rest ∧ lines ≠ [] ∧ (∀ t ∈ lines, t.kind = .newline) ∧
    (∃ t ∈ rest.head?, t.kind = .semicolon) ∧ root.KeepsRun rest ∧
    ∃ list : Node, list.Within root ∧ list.kind = .parameterList ∧ list.Holds lines

theorem Child.Seated.holds {n : Node} {run : List Seat} {listed : Bool}
    (seated : Child.Seated listed n.children run) : n.Holds (run.map (·.token)) := by
  obtain ⟨⟨before, after, eq⟩, -⟩ := seated
  exact ⟨before, after, by rw [eq, List.map_map]; rfl⟩

theorem Node.Holds.mem {n : Node} {tokens : List Token} (holds : n.Holds tokens) {t : Token}
    (mem : t ∈ tokens) : .token t ∈ n.children := by
  obtain ⟨before, after, eq⟩ := holds
  rw [eq]
  exact List.mem_append_left _ (List.mem_append_right _ (List.mem_map_of_mem mem))

theorem Node.exists_holder {root : Node} {front run behind : List Seat}
    (eq : root.seats = front ++ (run ++ behind)) (filled : run ≠ [])
    (joined : ∀ x ∈ run.tail, x.joined = true) :
    ∃ n : Node, n.Within root ∧ n.Holds (run.map (·.token)) ∧
      ∀ x ∈ run, x.listed = true → n.kind = .parameterList := by
  obtain ⟨x, more, rfl⟩ := List.exists_cons_of_ne_nil filled
  obtain ⟨n, within, seated⟩ := root.exists_seated eq joined
  refine ⟨n, within, seated.holds, fun x mem isList => ?_⟩
  rw [seated.2 x mem] at isList
  exact eq_of_beq isList

theorem Node.keepsRun_or_leaves {root : Node} {broken : Prop}
    (chain : root.seats.IsChain (Seat.Meets broken)) {before run after : List Seat}
    (eq : root.seats = before ++ (run ++ after)) (filled : run ≠ [])
    (terminators : ∀ x ∈ run, x.token.kind.isTerminator = true) :
    root.KeepsRun (run.map (·.token)) ∨ broken ∧ ∃ own next back, run = own ++ next :: back ∧
      own ≠ [] ∧ next.token.kind = .semicolon ∧
      ∃ list : Node, list.Within root ∧ list.kind = .parameterList ∧ list.Holds (own.map (·.token)) := by
  have inside : run.IsChain (Seat.Meets broken) :=
    chain.infix ⟨before, after, by rw [eq, List.append_assoc]⟩
  obtain ⟨first, more, rfl⟩ := List.exists_cons_of_ne_nil filled
  obtain joined | ⟨front, last, next, back, whole, joined, hb, listed, -, semicolon⟩ :=
    Seat.joined_or_leaves inside terminators
  · obtain ⟨n, within, holds, -⟩ := exists_holder eq filled joined
    exact .inl ⟨n, within, holds⟩
  · rw [whole] at eq ⊢
    have part : root.seats = before ++ ((front ++ [last]) ++ (next :: back ++ after)) := by
      simpa using eq
    obtain ⟨list, within, holds, isList⟩ := exists_holder part (by simp) joined
    exact .inr ⟨hb, front ++ [last], next, back, by simp, by simp, semicolon, list, within,
      isList last (by simp) listed, holds⟩

/-- Where terminators that follow one another are siblings but for what lists of parameters leave, a
run of them is left at one place at most. -/
theorem Node.keepsRun_or_splitsRun {root : Node} {broken : Prop}
    (chain : root.seats.IsChain (Seat.Meets broken))
    (apart : ∀ m : Node, m.Within root → m.kind = .parameterList → ∀ t, .token t ∈ m.children →
      t.kind ≠ .semicolon)
    {before run after : List Seat} (eq : root.seats = before ++ (run ++ after)) (filled : run ≠ [])
    (terminators : ∀ x ∈ run, x.token.kind.isTerminator = true) :
    root.KeepsRun (run.map (·.token)) ∨ broken ∧ root.SplitsRun (run.map (·.token)) := by
  obtain kept | ⟨hb, own, next, back, rfl, some, semicolon, list, within, isList, holds⟩ :=
    keepsRun_or_leaves chain eq filled terminators
  · exact .inl kept
  refine .inr ⟨hb, own.map (·.token), (next :: back).map (·.token), List.map_append, by simpa using some,
    fun t mem => ?_, ⟨next.token, rfl, semicolon⟩, ?_, list, within, isList, holds⟩
  · obtain ⟨x, mem', rfl⟩ := List.mem_map.mp mem
    have terminates := terminators x (List.mem_append_left _ mem')
    simpa [TokenKind.isTerminator, apart list within isList _ (holds.mem mem)] using terminates
  · -- another list cannot leave the rest, as it would have the semicolon
    have right : root.seats = (before ++ own) ++ (next :: back ++ after) := by simpa using eq
    obtain kept | ⟨-, own', next', back', whole, some', -, other, within', isList', holds'⟩ :=
      keepsRun_or_leaves chain right (List.cons_ne_nil _ _) fun x mem =>
        terminators x (List.mem_append_right _ mem)
    · exact kept
    · obtain ⟨x, more, rfl⟩ := List.exists_cons_of_ne_nil some'
      obtain ⟨rfl, -⟩ := List.cons.inj whole
      exact absurd semicolon (apart other within' isList' _ (holds'.mem List.mem_cons_self))

/-- For every source, each run of terminators is kept in one node of the tree, its tokens one right
after the other, or is split where a list of parameters that was never finished has the newlines in
front of its first semicolon. Where no syntax error is found no run is split. A run is any stretch of
terminators; the longest ones are among them. -/
theorem terminator_runs (entry : Entry) (maxErrors : Nat) (source : String)
    {before run after : List Token}
    (tokens : (TokenStream.ofText source.toList).tokens = before ++ run ++ after)
    (terminators : ∀ t ∈ run, t.kind.isTerminator = true) :
    let root := (parse entry maxErrors source).root
    (root.KeepsRun run ∨ root.SplitsRun run) ∧ (Clean entry source → root.KeepsRun run) := by
  intro root
  obtain ⟨parts, tree, -⟩ := parseStream_ofText_tree True entry source.toList fun _ => trivial
  have shown : Shown True entry root := tree.shown
  cases run with
  | nil =>
      have kept : root.KeepsRun [] := ⟨root, .self _, [], root.children, rfl⟩
      exact ⟨.inl kept, fun _ => kept⟩
  | cons t run =>
      have leaves : (leavesOf parts).flatMap Part.tokens =
          before ++ (t :: run ++ (after ++ [(TokenStream.ofText source.toList).endOfInput])) := by
        rw [← tokensOf_eq_leaves, tree.tokens, TokenStream.toList, tokens]
        simp
      obtain ⟨front, behind, inTree⟩ := shown_run tree.faithful leaves terminators
      have seats : root.seats.map (·.token) = front ++ (t :: run ++ behind) := by
        rw [Node.map_seats, show root.tokens = _ from tree.tokens_root, inTree]
      obtain ⟨left, others, eq, -, others_eq⟩ := List.map_eq_append_iff.mp seats
      obtain ⟨own, right, rfl, own_eq, -⟩ := List.map_eq_append_iff.mp others_eq
      have filled : own ≠ [] := by
        rintro rfl
        cases own_eq
      rw [← own_eq] at terminators ⊢
      have kept := Node.keepsRun_or_splitsRun (root_chain entry _ rfl)
        (fun m within isList u mem => (shown.within within).not_semicolon isList mem) eq filled
        fun x mem => terminators _ (List.mem_map_of_mem mem)
      exact ⟨kept.imp_right And.right, fun clean => kept.resolve_right fun split =>
        clean.not_faulty split.1⟩

/-- Both kinds of terminators, and lines with nothing on them, between two statements. -/
theorem stacked_terminators_kept :
    let source := "x := 1;\n\n;y := 2\n"
    let tokens := (TokenStream.ofText source.toList).tokens
    let run := (tokens.drop 3).take 4
    tokens = tokens.take 3 ++ run ++ tokens.drop 7 ∧
      (∀ t ∈ run, t.kind.isTerminator = true) ∧ Clean .program source ∧
        run.map (·.kind) = [.semicolon, .newline, .newline, .semicolon] ∧
        (parse .program defaultMaxErrors source).root.KeepsRun run := by
  intro source tokens run
  have eq : tokens = tokens.take 3 ++ run ++ tokens.drop 7 := by
    rw [List.append_assoc, ← List.drop_drop (i := 4) (j := 3), List.take_append_drop,
      List.take_append_drop]
  have terminators : ∀ t ∈ run, t.kind.isTerminator = true := by decide +kernel
  have clean : Clean .program source := .of_unlimitedErrors (by decide +kernel)
  exact ⟨eq, terminators, clean, by decide +kernel,
    (terminator_runs .program defaultMaxErrors source eq terminators).2 clean⟩

/-- No node has both: the list of parameters takes the newline, and leaves the semicolon. -/
example :
    let source := "fn f(\n;\n"
    ∀ n ∈ (parse .program defaultMaxErrors source).root.preorder,
      ∃ t ∈ (TokenStream.ofText source.toList).tokens.drop 3, t ∉ n.tokenChildren := by
  decide +kernel

end UmkaSyntax
