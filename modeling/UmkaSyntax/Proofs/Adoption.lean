import UmkaSyntax.Parsing.OpenNode

namespace UmkaSyntax

structure FieldsOver (count : Nat) (fields : List Field) : Prop where
  distinct : (fields.map (·.name)).Nodup
  ordered : ∀ f ∈ fields, f.children.Pairwise (· < ·)
  inRange : ∀ f ∈ fields, ∀ i ∈ f.children, i < count

def selectChildren (select : List Nat → List Nat) (fields : List Field) : List Field :=
  (fields.map fun f => { f with children := select f.children }).filter (!·.children.isEmpty)

theorem mem_selectChildren {select : List Nat → List Nat} {fields : List Field} {f : Field} :
    f ∈ selectChildren select fields ↔
      f.children ≠ [] ∧ ∃ g ∈ fields, g.name = f.name ∧ select g.children = f.children := by
  cases f
  simp [selectChildren, and_comm]

theorem names_selectChildren_sublist (select : List Nat → List Nat) (fields : List Field) :
    ((selectChildren select fields).map (·.name)).Sublist (fields.map (·.name)) := by
  have whole : (fields.map fun f => { f with children := select f.children }).map (·.name) =
      fields.map (·.name) := by
    rw [List.map_map]
    rfl
  rw [← whole]
  exact List.filter_sublist.map _

theorem FieldsOver.selected {select : List Nat → List Nat} {fields : List Field} {count rest : Nat}
    (before : FieldsOver count fields)
    (ordered : ∀ children : List Nat, children.Pairwise (· < ·) → (select children).Pairwise (· < ·))
    (inRange : ∀ children : List Nat, (∀ i ∈ children, i < count) → ∀ i ∈ select children, i < rest) :
    FieldsOver rest (selectChildren select fields) where
  distinct := before.distinct.sublist (names_selectChildren_sublist select fields)
  ordered f mem := by
    obtain ⟨-, g, isField, -, selected⟩ := mem_selectChildren.mp mem
    exact selected ▸ ordered g.children (before.ordered g isField)
  inRange f mem := by
    obtain ⟨-, g, isField, -, selected⟩ := mem_selectChildren.mp mem
    exact selected ▸ inRange g.children (before.inRange g isField)

namespace OpenNode

def Names (n : OpenNode) (label : FieldName) (i : Nat) : Prop :=
  ∃ f ∈ n.fields, f.name = label ∧ i ∈ f.children

def Orderly (n : OpenNode) : Prop := FieldsOver n.children.size n.fields

theorem names_iff_of_select {select : List Nat → List Nat} {n m : OpenNode} {label : FieldName}
    {i j : Nat} {kept : Prop} (fields : m.fields = selectChildren select n.fields)
    (selects : ∀ children : List Nat, j ∈ select children ↔ kept ∧ i ∈ children) :
    m.Names label j ↔ kept ∧ n.Names label i := by
  simp only [Names, fields, mem_selectChildren]
  constructor
  · rintro ⟨f, ⟨-, g, isField, name, selected⟩, rfl, own⟩
    obtain ⟨isKept, before⟩ := (selects g.children).mp (selected ▸ own)
    exact ⟨isKept, g, isField, name, before⟩
  · rintro ⟨isKept, g, isField, rfl, own⟩
    have after := (selects g.children).mpr ⟨isKept, own⟩
    exact ⟨⟨g.name, select g.children⟩, ⟨List.ne_nil_of_mem after, g, isField, rfl, rfl⟩, rfl, after⟩

/-- The node is split at the child of the index `cut`: the children in front of it stay with
`parent`, and the others go to `adopter`. -/
structure SplitsAt (n : OpenNode) (cut : Nat) (kind : NodeKind) (parent adopter : OpenNode) :
    Prop where
  children_kept : parent.children.toList = n.children.toList.take cut
  children_moved : adopter.children.toList = n.children.toList.drop cut
  names_kept : ∀ label i, parent.Names label i ↔ i < cut ∧ n.Names label i
  names_moved : ∀ label i, adopter.Names label i ↔ n.Names label (cut + i)
  parent_orderly : parent.Orderly
  adopter_orderly : adopter.Orderly
  filled : (∀ f ∈ parent.fields, f.children ≠ []) ∧ ∀ f ∈ adopter.fields, f.children ≠ []
  parent_order : (parent.fields.map (·.name)).Sublist (n.fields.map (·.name))
  adopter_order : (adopter.fields.map (·.name)).Sublist (n.fields.map (·.name))
  parent_same : parent.kind = n.kind ∧ parent.offset = n.offset ∧ parent.pending = n.pending
  adopter_opened : adopter.kind = kind ∧ adopter.pending = none

def countedFrom (cut : Nat) (children : List Nat) : List Nat :=
  (children.filter (cut ≤ ·)).map (· - cut)

theorem mem_countedFrom {cut i : Nat} {children : List Nat} :
    i ∈ countedFrom cut children ↔ cut + i ∈ children := by
  simp only [countedFrom, List.mem_map, List.mem_filter, decide_eq_true_eq]
  constructor
  · rintro ⟨j, ⟨mem, behind⟩, rfl⟩
    rwa [Nat.add_sub_cancel' behind]
  · exact fun mem => ⟨cut + i, ⟨mem, Nat.le_add_right _ _⟩, Nat.add_sub_cancel_left _ _⟩

theorem countedFrom_ordered (cut : Nat) {children : List Nat} (ordered : children.Pairwise (· < ·)) :
    (countedFrom cut children).Pairwise (· < ·) := by
  refine List.pairwise_map.mpr ((ordered.filter _).imp_of_mem fun isLeft _ less => ?_)
  have behind : cut ≤ _ := of_decide_eq_true (List.mem_filter.mp isLeft).2
  omega

section
variable (count : Nat) (kind : NodeKind) (offset : Nat) (n : OpenNode)

theorem fields_split_kept : (n.split count kind offset).1.fields =
    selectChildren (·.filter (· < min count n.children.size)) n.fields := rfl

theorem fields_split_moved : (n.split count kind offset).2.fields =
    selectChildren (countedFrom (min count n.children.size)) n.fields := rfl

theorem children_split_kept : (n.split count kind offset).1.children.toList =
    n.children.toList.take (min count n.children.size) := by
  simp only [split, Array.toList_extract, List.extract_eq_take_drop, List.drop_zero, Nat.sub_zero]

theorem children_split_moved : (n.split count kind offset).2.children.toList =
    n.children.toList.drop (min count n.children.size) := by
  simp only [split, Array.toList_extract, List.extract_eq_take_drop]
  exact List.take_of_length_le (by simp)

theorem size_split_kept :
    (n.split count kind offset).1.children.size = min count n.children.size := by
  rw [← Array.length_toList, children_split_kept, List.length_take, Array.length_toList,
    Nat.min_eq_left (Nat.min_le_right _ _)]

theorem size_split_moved : (n.split count kind offset).2.children.size =
    n.children.size - min count n.children.size := by
  rw [← Array.length_toList, children_split_moved, List.length_drop, Array.length_toList]

end

/-- A split keeps every name at its child and adds none, whatever the number of children that are to
stay. -/
theorem split_splitsAt {n : OpenNode} (orderly : n.Orderly) (count : Nat) (kind : NodeKind)
    (offset : Nat) : n.SplitsAt (min count n.children.size) kind (n.split count kind offset).1
      (n.split count kind offset).2 where
  children_kept := n.children_split_kept count kind offset
  children_moved := n.children_split_moved count kind offset
  names_kept label i := by
    refine names_iff_of_select (fields_split_kept count kind offset n) fun children => ?_
    rw [List.mem_filter, decide_eq_true_eq, and_comm]
  names_moved label i := by
    rw [← true_and (n.Names label _)]
    refine names_iff_of_select (fields_split_moved count kind offset n) fun children => ?_
    rw [mem_countedFrom, true_and]
  parent_orderly := by
    rw [Orderly, size_split_kept, fields_split_kept]
    refine orderly.selected (fun children => List.Pairwise.filter _) fun children _ i mem => ?_
    exact of_decide_eq_true (List.mem_filter.mp mem).2
  adopter_orderly := by
    rw [Orderly, size_split_moved, fields_split_moved]
    refine orderly.selected (fun children => countedFrom_ordered _) fun children inRange i mem => ?_
    have within := inRange _ (mem_countedFrom.mp mem)
    omega
  filled := by
    rw [fields_split_kept, fields_split_moved]
    exact ⟨fun f mem => (mem_selectChildren.mp mem).1, fun f mem => (mem_selectChildren.mp mem).1⟩
  parent_order := names_selectChildren_sublist _ n.fields
  adopter_order := names_selectChildren_sublist (countedFrom (min count n.children.size)) n.fields
  parent_same := ⟨rfl, rfl, rfl⟩
  adopter_opened := ⟨rfl, rfl⟩

def straddled : OpenNode where
  kind := .mapLiteral
  children := #[.token (Token.bare .name ⟨0, 1⟩ "a"), .token (Token.bare .name ⟨2, 3⟩ "b"),
    .token (Token.bare .name ⟨4, 5⟩ "c")]
  fields := [⟨.value, [0, 2]⟩, ⟨.key, [1]⟩]
  offset := 0
  pending := some .value

theorem straddled_splitsAt :
    straddled.Orderly ∧ straddled.SplitsAt 1 .mapEntry (straddled.split 1 .mapEntry 5).1
      (straddled.split 1 .mapEntry 5).2 := by
  have orderly : straddled.Orderly := ⟨by decide, by decide, by decide⟩
  exact ⟨orderly, split_splitsAt orderly 1 .mapEntry 5⟩

end OpenNode

end UmkaSyntax
