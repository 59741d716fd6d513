import Mathlib.Data.List.Chain
import UmkaSyntax.Proofs.Tree.Fields
import UmkaSyntax.Proofs.Tree.Leaves

namespace UmkaSyntax
open UmkaSyntax.Part

structure Node.WellFormed (n : Node) : Prop where
  filled : n.children ≠ []
  covers : n.span = (Node.ofChildren n.kind n.children n.fields 0).span
  /-- The span runs from the start of the first token to the end of the last one. -/
  reaches : ∃ first ∈ n.tokens.head?, ∃ last ∈ n.tokens.getLast?,
    n.span = ⟨first.span.start, last.span.stop⟩
  apart : n.children.IsChain fun c d => c.span.stop ≤ d.span.start
  names : (n.fields.map (·.name)).Nodup
  places : ∀ field ∈ n.fields, field.children ≠ [] ∧ field.children.Pairwise (· < ·) ∧
    ∀ i ∈ field.children, i < n.children.length
  single : ∀ f ∈ n.fields, ∀ g ∈ n.fields, ∀ i ∈ f.children, i ∈ g.children → f = g
  named : ∀ i label, n.fieldAt? i = some label ↔ ∃ f ∈ n.fields, f.name = label ∧ i ∈ f.children
  listed : ∀ label, n.field label =
    (n.children.zipIdx.filter fun (_, i) => n.fieldAt? i == some label).map (·.1)

theorem isChain_of_placed {children : List Child} (placed : ∀ c ∈ children, c.Placed) {start stop : Nat}
    (laid : Laid start ((Child.tokensOf children).flatMap Token.stretches) stop) :
    (∀ c ∈ children.head?, start ≤ c.span.start) ∧
      children.IsChain fun c d => c.span.stop ≤ d.span.start := by
  induction children generalizing start with
  | nil => simp
  | cons c children ih =>
      rw [Child.tokensOf, List.flatMap_append] at laid
      obtain ⟨middle, first, rest⟩ := laid_append.mp laid
      obtain ⟨-, after, -, before⟩ := (placed c (by simp)).2 start middle first
      obtain ⟨next, chain⟩ := ih (fun d mem => placed d (by simp [mem])) rest
      refine ⟨by simpa using after, ?_⟩
      cases children with
      | nil => exact List.isChain_singleton c
      | cons d children =>
          exact List.isChain_cons_cons.mpr ⟨le_trans before (next d (by simp)), chain⟩

theorem Node.Labelled.field_eq {n : Node} {labels : List (Option FieldName)} (labelled : n.Labelled labels)
    (label : FieldName) : n.field label =
      (n.children.zipIdx.filter fun (_, i) => n.fieldAt? i == some label).map (·.1) := by
  have test : ∀ i, (n.fieldAt? i == some label) = decide (labels[i]? = some (some label)) := by
    intro i
    rw [labelled.fieldAt?_eq]
    cases labels[i]? with
    | none => simp
    | some own => exact Bool.eq_iff_iff.mpr (by simp)
  have range : List.range labels.length = n.children.zipIdx.map (·.2) := by
    rw [List.zipIdx_map_snd, labelled.length, List.range_eq_range']
  rw [Node.field, labelled.fields, places_fieldsOf, placesOf, range, List.filter_map,
    List.filterMap_map, ← List.filterMap_eq_map]
  simp only [test]
  refine List.filterMap_congr fun pair mem => ?_
  exact List.mem_zipIdx_iff_getElem?.mp (List.mem_of_mem_filter mem)

theorem Node.WellFormed.of_parts {n : Node} (full : n.Full) {start stop : Nat}
    (laid : Laid start (n.tokens.flatMap Token.stretches) stop) {labels : List (Option FieldName)}
    (labelled : n.Labelled labels) : n.WellFormed := by
  obtain ⟨distinct, members⟩ := fieldsOf_spec labels
  rw [← labelled.fields] at distinct members
  -- Everything about the fields is read off the labels.
  have inField : ∀ f ∈ n.fields, ∀ i, i ∈ f.children ↔ labels[i]? = some (some f.name) := by
    intro f mem i
    rw [((members f).mp mem).2, mem_placesOf]
  have placed := full.placed
  obtain ⟨filled, lies⟩ := placed
  obtain ⟨first, more, eq⟩ := List.exists_cons_of_ne_nil filled
  replace eq : n.tokens = first :: more := eq
  refine ⟨?_, ?_, ?_, ?_, distinct, ?_, ?_, ?_, labelled.field_eq⟩
  · cases full
    simp [Node.ofChildren]
  · cases full
    rfl
  · obtain ⟨last, isLast⟩ := Option.isSome_iff_exists.mp (List.getLast?_isSome.mpr filled)
    refine ⟨first, by simp [eq], last, isLast, ?_⟩
    have span : n.span = hull n.tokens := (lies _ _ laid).1
    have isLast : n.tokens.getLast? = some last := isLast
    rw [span, hull, isLast, eq]
    rfl
  · cases full with
    | mk kind first more fields offset inner =>
        rw [Node.tokens_ofChildren] at laid
        refine (isChain_of_placed (fun c mem => ?_) laid).2
        cases c with
        | token t => exact Child.placed_token t
        | node m => exact (inner m mem).placed
  · intro f mem
    have fromLabels : f ∈ fieldsOf labels := labelled.fields ▸ mem
    refine ⟨children_ne_nil_of_fieldsOf fromLabels, ?_, fun i own => ?_⟩
    · rw [((members f).mp mem).2]
      exact placesOf_increasing _ _
    · rw [← labelled.length]
      exact index_lt_of_fieldsOf fromLabels own
  · intro f isField g isOther i own other
    have names : f.name = g.name := by
      have same := ((inField f isField i).mp own).symm.trans ((inField g isOther i).mp other)
      simpa using same
    have alone := filter_name_of_nodup distinct isField
    have both : g ∈ n.fields.filter (·.name == f.name) :=
      List.mem_filter.mpr ⟨isOther, by simp [names]⟩
    rw [alone] at both
    exact (List.mem_singleton.mp both).symm
  · intro i label
    rw [labelled.fieldAt?_eq, Option.join_eq_some_iff]
    constructor
    · intro own
      refine ⟨⟨label, placesOf labels label⟩, (members _).mpr ⟨List.mem_of_getElem? own, rfl⟩, rfl, ?_⟩
      exact mem_placesOf.mpr own
    · rintro ⟨f, mem, rfl, own⟩
      exact (inField f mem i).mp own

theorem Part.leavesOf_append (left right : List Part) :
    leavesOf (left ++ right) = leavesOf left ++ leavesOf right := by
  induction left with
  | nil => rfl
  | cons part left ih => rw [List.cons_append, leavesOf, ih, leavesOf, List.append_assoc]

theorem Part.Faithful.kind_ne {leaf : Part} (faithful : leaf.Faithful)
    (inside : ∀ t ∈ leaf.tokens, t.kind ≠ .endOfInput) : ∀ t ∈ leaf.shown, t.kind ≠ .endOfInput := by
  intro t mem
  obtain ⟨own, -⟩ | kind := faithful.kind_shown t mem
  · exact inside t own
  · have kinds : ∀ k ∈ Part.shownKinds, k ≠ .endOfInput := by decide
    exact kinds _ kind

theorem TreeOf.ends {broken : Prop} {entry : Entry} {stream : TokenStream} {root : Node}
    {parts : List Part} (tree : TreeOf broken entry stream.toList root parts)
    (proper : ∀ t ∈ stream.tokens, t.kind ≠ .endOfInput) :
    ∃ children tokens, root.children = children ++ [.token stream.endOfInput] ∧
      root.tokens = tokens ++ [stream.endOfInput] ∧ ∀ t ∈ tokens, t.kind ≠ .endOfInput := by
  obtain ⟨left, right, rfl, -, last⟩ := tree.sentence
  obtain ⟨t, rfl, -⟩ := Form.sentence_token.mp last
  have tokens := tree.tokens
  rw [tokensOf_append, TokenStream.toList] at tokens
  obtain ⟨inside, single⟩ := List.append_inj' tokens rfl
  obtain rfl : t = stream.endOfInput := List.cons.inj single |>.1
  have leaves := tree.tokens_root
  rw [leavesOf_append, List.flatMap_append] at leaves
  refine ⟨toChildren left, (leavesOf left).flatMap Part.shown, ?_, leaves, fun u mem => ?_⟩
  · rw [Child.node.inj tree.tree]
    exact toChildren_append _ _
  · obtain ⟨leaf, isLeaf, own⟩ := List.mem_flatMap.mp mem
    refine (tree.faithful leaf ?_).kind_ne (fun v isToken => proper v ?_) u own
    · rw [leavesOf_append]
      exact List.mem_append_left _ isLeaf
    · rw [← inside, tokensOf_eq_leaves]
      exact List.mem_flatMap.mpr ⟨leaf, isLeaf, isToken⟩

/-- Every node of a parse is well-formed. The end of the input is the last child of the root and is
nowhere else, and the root ends where the source does. -/
theorem parse_wellFormed (entry : Entry) (maxErrors : Nat) (source : String) :
    (∀ n : Node, n.Within (parse entry maxErrors source).root → n.WellFormed) ∧
      (∃ children tokens last, (parse entry maxErrors source).root.children = children ++ [.token last] ∧
        (parse entry maxErrors source).root.tokens = tokens ++ [last] ∧
        last.kind = .endOfInput ∧ ∀ t ∈ tokens, t.kind ≠ .endOfInput) ∧
      (parse entry maxErrors source).root.span.stop = source.utf8ByteSize := by
  let stream := TokenStream.ofText source.toList
  let root := (parseStream entry stream).root
  have full : root.Full := root_full entry stream
  have laid := (root_renders entry stream).laid (TokenStream.ofText_laid source.toList)
  obtain ⟨parts, tree, -⟩ := parseStream_ofText_tree True entry source.toList fun _ => trivial
  have wellFormed : ∀ n : Node, n.Within root → n.WellFormed := by
    intro n within
    obtain ⟨labels, labelled, -⟩ := (tree.shown.within within).labelled fun _ => rfl
    obtain ⟨before, after, tokens⟩ := within.tokens
    have around := laid
    rw [show (parseStream entry stream).root.tokens = _ from tokens, List.flatMap_append,
      List.flatMap_append] at around
    exact .of_parts (full.within within) around.part labelled
  obtain ⟨children, tokens, isLast, ends, inside⟩ :=
    tree.ends fun t mem => (TokenStream.token_origin mem).1
  refine ⟨wellFormed, ⟨children, tokens, stream.endOfInput, isLast, ends, rfl, inside⟩, ?_⟩
  obtain ⟨_, _, last, own, span⟩ := (wellFormed root (.self root)).reaches
  change root.span.stop = _
  have same : last = stream.endOfInput := by
    rw [show root.tokens = _ from ends, List.getLast?_concat] at own
    exact (Option.some.inj own).symm
  rw [span, same, utf8ByteSize_eq_byteLength]
  rfl

end UmkaSyntax
