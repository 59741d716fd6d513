import UmkaSyntax.Proofs.Parsing.Depth
import UmkaSyntax.Proofs.Tree.Fields

namespace UmkaSyntax

theorem Trace.Fits.finish {limit : Nat} {trace : Trace} (fits : trace.Fits limit) (room : 4 ≤ limit) :
    trace.finish.Fits limit := by
  have ended := fits.ended
  have closed : ∀ {s : State}, s.closeToRoot.depth = 1 := fun {s} => by
    rw [State.depth, Builder.depth]
    exact congrArg (·.length + 1) (Builder.below_closeTo (b := s.builder) List.nil_suffix)
  have taken : ∀ {s : State}, (s.closeToRoot.takeWhile .terminator).depth = 1 := fun {s} =>
    (State.depth_eq_of_below (State.below_takeWhile _ _)).trans closed
  unfold Trace.finish
  split
  · rename_i s eq
    rw [eq] at ended
    refine fits.followedBy ((step_fits (Builder.Fits.closeTo ended 1)).andThen fun t eq fits => ?_)
    cases eq
    refine (takeWhile_fits .terminator fits).andThen fun t eq fits => ?_
    rw [outcome_takeWhile] at eq
    cases eq
    have last : ∀ t : State, t.builder.Fits limit → t.depth = 1 → (discard t.rest.length t).Fits limit :=
      fun t fits depth => discard_fits fits (by rw [depth]; exact room) _
    split
    · exact (stay_fits fits).andThen fun t eq fits => by
        cases eq
        exact last _ fits taken
    · exact (step_fits (s := State.record _ _) fits).andThen fun t eq fits => by
        cases eq
        exact last _ fits taken
  · rename_i e s eq
    rw [eq] at ended
    refine fits.followedBy ((step_fits (s := s.record _) ended).andThen fun t eq fits => ?_)
    cases eq
    refine (step_fits (Builder.Fits.closeTo fits 1)).andThen fun t eq fits => ?_
    cases eq
    refine (takeWhile_fits .terminator fits).andThen fun t eq fits => ?_
    rw [outcome_takeWhile] at eq
    cases eq
    exact discard_fits fits (by rw [show State.depth _ = 1 from taken]; exact room) _

theorem State.initial_fits {limit : Nat} (room : 1 ≤ limit) (root : NodeKind) (stream : TokenStream) :
    (State.initial root stream).builder.Fits limit :=
  Builder.fits_mk.mpr ⟨room, by simp [OpenNode.Fits, OpenNode.empty], by simp⟩

theorem traceStream_fits (entry : Entry) (stream : TokenStream) :
    (traceStream entry stream).Fits (nestingLimit + 5) := by
  refine Trace.Fits.finish (Rule.trace_fits (fun category s => ?_) (fun category s plain => ?_)
    (fun category s => traceCategory_fits _ category) _ entry.rule_entersKeys
    (fun never => by cases never) (State.initial_fits (by decide) _ stream) ?_) (by decide)
  · rw [outcome_traceCategory]
    exact enterCategory_keeps _ category s
  · rw [outcome_traceCategory]
    exact enterCategory_hosts _ category plain
  · have reach := entry.rule_reach
    have depth : (State.initial entry.rootKind stream).depth = 1 := rfl
    have limit : nestingLimit = 256 := rfl
    omega

theorem root_weight (entry : Entry) (stream : TokenStream) :
    (parseStream entry stream).root.weight NodeKind.cost ≤ nestingLimit + 5 := by
  have fits : (parseStream entry stream).builder.Fits (nestingLimit + 5) := by
    have ended := (traceStream_fits entry stream).ended
    rwa [outcome_traceStream] at ended
  have top := fits.nodes _ _ (List.suffix_refl _)
  have whole := (top.add (c := .token (parseStream entry stream).endOfInput) fits.depth).toNode fits.depth
  exact Nat.le_trans (Nat.le_add_left _ _) whole

theorem Entry.places_mapEntry (entry : Entry) : ∀ place ∈ entry.places true .mapEntry,
    place.2 ≠ .node .mapEntry ∧ place.2 ≠ .literal .mapEntry := by
  cases entry <;> decide

theorem Shown.not_mapEntry {broken : Prop} {entry : Entry} {n m : Node} (shown : Shown broken entry n)
    (isEntry : n.kind = .mapEntry) (mem : .node m ∈ n.children) : m.kind ≠ .mapEntry := by
  obtain ⟨i, child⟩ := List.mem_iff_getElem?.mp mem
  obtain ⟨symbol, isPlace, stands⟩ := shown.allows (b := true) (fun _ => rfl) child
  rw [isEntry] at isPlace
  have other := entry.places_mapEntry _ isPlace
  cases symbol with
  | token | keyword | builtin => exact stands.elim
  | raw => rcases stands with kind | kind <;> rw [kind] <;> decide
  | literal kind | node kind =>
      obtain rfl : m.kind = kind := stands
      intro eq
      simp [eq] at other

/-- However deep a source nests, never more nodes are open than the limit and five, nodes of literals
and of skipped tokens included, and a path of the tree has at most twice as many. The moments are
all of the parse: each follows from the one before it by at most one step. -/
theorem parse_nesting (entry : Entry) (maxErrors : Nat) (source : String) :
    let stream := TokenStream.ofText source.toList
    let root := (parse entry maxErrors source).root
    Walk (State.initial entry.rootKind stream) (parseMoments entry stream) (parseStream entry stream) ∧
    root = (parseStream entry stream).root ∧
    (∀ m ∈ parseMoments entry stream, m.openNodes ≤ nestingLimit + 5) ∧
    ∀ path : root.Path, path.nodes.length ≤ 2 * (nestingLimit + 5) := by
  intro stream root
  refine ⟨parseMoments_walk entry stream, rfl, fun m mem => ?_, fun path => ?_⟩
  · obtain rfl | later := List.mem_cons.mp mem
    · change 1 + 0 ≤ nestingLimit + 5
      decide
    · exact ((traceStream_fits entry stream).moments m later).1
  · obtain ⟨parts, tree, -⟩ := parseStream_ofText_tree True entry source.toList fun _ => trivial
    have shown : Shown True entry root := tree.shown
    have kind : root.kind = entry.rootKind := tree.kind_eq
    refine Nat.le_trans (path.length_le_of_apart .mapEntry ?_ fun n m within child isEntry =>
      (shown.within within).not_mapEntry isEntry child)
      (Nat.mul_le_mul_left 2 (root_weight entry stream))
    rw [kind]
    cases entry <;> decide

end UmkaSyntax
