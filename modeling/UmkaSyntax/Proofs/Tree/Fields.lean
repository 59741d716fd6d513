import UmkaSyntax.Proofs.Tree.Nodes

namespace UmkaSyntax
open UmkaSyntax.Part

theorem filter_name_of_nodup {fields : List Field} {field : Field}
    (distinct : (fields.map (·.name)).Nodup) (mem : field ∈ fields) :
    fields.filter (·.name == field.name) = [field] := by
  induction fields with
  | nil => cases mem
  | cons first more ih =>
      rw [List.map_cons, List.nodup_cons] at distinct
      obtain rfl | mem := List.mem_cons.mp mem
      · have others : more.filter (·.name == field.name) = [] := by
          rw [List.filter_eq_nil_iff]
          intro other isOther same
          exact distinct.1 (beq_iff_eq.mp same ▸ List.mem_map_of_mem isOther)
        rw [List.filter_cons_of_pos (by simp), others]
      · have other : first.name ≠ field.name := fun same =>
          distinct.1 (same ▸ List.mem_map_of_mem mem)
        rw [List.filter_cons_of_neg (by simpa using other), ih distinct.2 mem]

theorem places_fieldsOf (labels : List (Option FieldName)) (wanted : FieldName) :
    ((fieldsOf labels).filter (·.name == wanted)).flatMap (·.children) = placesOf labels wanted := by
  obtain ⟨distinct, members⟩ := fieldsOf_spec labels
  by_cases occurs : some wanted ∈ labels
  · have mem : (⟨wanted, placesOf labels wanted⟩ : Field) ∈ fieldsOf labels :=
      (members _).mpr ⟨occurs, rfl⟩
    rw [filter_name_of_nodup distinct mem]
    simp
  · have absent : (fieldsOf labels).filter (·.name == wanted) = [] := by
      rw [List.filter_eq_nil_iff]
      intro field mem same
      exact occurs (beq_iff_eq.mp same ▸ ((members field).mp mem).1)
    have nowhere : placesOf labels wanted = [] := by
      rw [List.eq_nil_iff_forall_not_mem]
      intro i mem
      exact occurs (List.mem_of_getElem? (mem_placesOf.mp mem))
    rw [absent, nowhere]
    rfl

theorem placesOf_increasing (labels : List (Option FieldName)) (wanted : FieldName) :
    (placesOf labels wanted).Pairwise (· < ·) :=
  List.pairwise_lt_range.filter _

theorem nameAt?_fieldsOf (labels : List (Option FieldName)) (i : Nat) :
    Field.nameAt? (fieldsOf labels) i = labels[i]?.join := by
  obtain ⟨-, members⟩ := fieldsOf_spec labels
  have names : ∀ field ∈ fieldsOf labels, (field.children.contains i = true ↔
      labels[i]? = some (some field.name)) := by
    intro field mem
    rw [((members field).mp mem).2, List.contains_iff_mem, mem_placesOf]
  rw [Field.nameAt?]
  cases found : (fieldsOf labels).find? (·.children.contains i) with
  | some field =>
      have contains := List.find?_some found
      have label := (names field (List.mem_of_find?_eq_some found)).mp (by simpa using contains)
      simp [label]
  | none =>
      rw [List.find?_eq_none] at found
      cases label : labels[i]?.join with
      | none => rfl
      | some word =>
          rw [Option.join_eq_some_iff] at label
          have mem : (⟨word, placesOf labels word⟩ : Field) ∈ fieldsOf labels :=
            (members _).mpr ⟨List.mem_of_getElem? label, rfl⟩
          exact absurd ((names _ mem).mpr label) (found _ mem)

structure Node.Labelled (n : Node) (labels : List (Option FieldName)) : Prop where
  fields : n.fields = fieldsOf labels
  length : labels.length = n.children.length

namespace Node.Labelled

variable {n : Node} {labels : List (Option FieldName)}

theorem mem_field (labelled : n.Labelled labels) {wanted : FieldName} {c : Child} :
    c ∈ n.field wanted ↔ ∃ i : Nat, labels[i]? = some (some wanted) ∧ n.children[i]? = some c := by
  rw [Node.field, labelled.fields, places_fieldsOf, List.mem_filterMap]
  simp only [mem_placesOf]

theorem field_ne_nil (labelled : n.Labelled labels) {wanted : FieldName}
    (occurs : some wanted ∈ labels) : n.field wanted ≠ [] := by
  obtain ⟨i, label⟩ := List.mem_iff_getElem?.mp occurs
  have inside : i < n.children.length := by
    rw [← labelled.length]
    exact (List.getElem?_eq_some_iff.mp label).1
  exact List.ne_nil_of_mem (labelled.mem_field.mpr ⟨i, label, List.getElem?_eq_getElem inside⟩)

theorem fieldAt?_eq (labelled : n.Labelled labels) (i : Nat) : n.fieldAt? i = labels[i]?.join := by
  rw [Node.fieldAt?, labelled.fields, nameAt?_fieldsOf]

end Node.Labelled

def Entry.places (broken : Bool) (entry : Entry) : NodeKind → List (Option FieldName × Symbol)
  | .stringLiteral | .formatLiteral | .pathLiteral | .charLiteral =>
      [(none, .token .quote), (none, .token .literalText), (none, .token .escape),
        (none, .token .format), (none, .node .moduleRef)]
  | .moduleRef => [(some .name, .token .name), (none, .token .moduleSuffix)]
  | kind => (entry.production kind).places broken

def Entry.Allows (broken : Bool) (entry : Entry) (kind : NodeKind) (label : Option FieldName)
    (c : Child) : Prop :=
  ∃ symbol, (label, symbol) ∈ entry.places broken kind ∧ symbol.Stands c

variable {broken : Prop} {entry : Entry} {n : Node} {b : Bool}

theorem NodeKind.literal_of_splits {kind : NodeKind} {k : TokenKind} (splits : kind.splits k = true) :
    kind = .stringLiteral ∨ kind = .formatLiteral ∨ kind = .pathLiteral ∨ kind = .charLiteral := by
  cases k <;> grind [NodeKind.splits]

theorem Entry.places_eq {kind : NodeKind} (isNode : entry.production kind ≠ .nothing) :
    entry.places b kind = (entry.production kind).places b := by
  cases kind with
  | stringLiteral | formatLiteral | pathLiteral | charLiteral | moduleRef =>
      cases entry <;> exact absurd rfl isNode
  | _ => rfl

theorem Shown.labelled (shown : Shown broken entry n) (hb : broken → b = true) :
    ∃ labels, n.Labelled labels ∧ ∀ (i : Nat) (label : Option FieldName) (c : Child), labels[i]? = some label →
      n.children[i]? = some c → entry.Allows b n.kind label c := by
  -- The labels are those of the parts; the pieces of a literal have none.
  cases shown with
  | @node kind parts next depth shape licensed =>
      refine ⟨parts.map Part.label, ⟨rfl, by simp [Node.ofChildren]⟩, fun i label c => ?_⟩
      have isNode : entry.production kind ≠ .nothing := by
        intro nothing
        rw [nothing] at shape
        obtain never | ⟨-, more, k, never | ⟨_, _, -, never⟩⟩ := shape <;> exact never
      change _ → (toChildren parts)[i]? = some c → entry.Allows b kind label c
      rw [toChildren_eq_map, List.getElem?_map, List.getElem?_map]
      cases at? : parts[i]? with
      | none => simp
      | some part =>
          rintro ⟨⟩ ⟨⟩
          obtain ⟨⟨label, symbol⟩, isPlace, named, fits⟩ :=
            Shown.placed hb shape part (List.mem_of_getElem? at?)
          exact ⟨symbol, named ▸ Entry.places_eq isNode ▸ isPlace, fits.stands⟩
  | @literal kind t splits =>
      let pieces := (LiteralParts.ofToken kind.flavor t).pieces
      refine ⟨pieces.map fun _ => none, ⟨(fieldsOf_none (by simp)).symm, by
        simp [LiteralParts.toNode, Node.ofChildren, pieces]⟩, fun i label c => ?_⟩
      have places : entry.places b kind = entry.places b .stringLiteral := by
        obtain rfl | rfl | rfl | rfl : kind = .stringLiteral ∨ kind = .formatLiteral ∨
          kind = .pathLiteral ∨ kind = .charLiteral := NodeKind.literal_of_splits splits <;> rfl
      change _ → (pieces.map LiteralPiece.toChild)[i]? = some c → entry.Allows b kind label c
      rw [List.getElem?_map, List.getElem?_map, Entry.Allows, places]
      cases at? : pieces[i]? with
      | none => simp
      | some piece =>
          rintro ⟨⟩ ⟨⟩
          have kinds := LiteralParts.kinds_ofToken kind.flavor t piece (List.mem_of_getElem? at?)
          cases piece with
          | token u =>
              have kind : u.kind ∈ [TokenKind.quote, .literalText, .escape, .format] := by
                simpa [LiteralPiece.tokens, LiteralParts.pieceKinds] using kinds
              exact ⟨.token u.kind, by simpa [Entry.places] using kind, rfl⟩
          | module word suffix => exact ⟨.node .moduleRef, by simp [Entry.places], rfl⟩
  | @moduleRef word suffix isName isSuffix =>
      refine ⟨[some .name, none], ⟨rfl, rfl⟩, fun i label c => ?_⟩
      change _ → [Child.token word, .token suffix][i]? = some c → entry.Allows b .moduleRef label c
      rcases i with _ | _ | i
      · rintro ⟨⟩ ⟨⟩
        exact ⟨.token .name, by simp [Entry.places], isName⟩
      · rintro ⟨⟩ ⟨⟩
        exact ⟨.token .moduleSuffix, by simp [Entry.places], isSuffix⟩
      · simp

theorem Shown.allows (shown : Shown broken entry n) (hb : broken → b = true) {i : Nat} {c : Child}
    (child : n.children[i]? = some c) : entry.Allows b n.kind (n.fieldAt? i) c := by
  obtain ⟨labels, labelled, each⟩ := shown.labelled hb
  have inside : i < labels.length := by
    rw [labelled.length]
    exact (List.getElem?_eq_some_iff.mp child).1
  rw [labelled.fieldAt?_eq, List.getElem?_eq_getElem inside]
  exact each i _ c (List.getElem?_eq_getElem inside) child

theorem Shown.allows_field (shown : Shown broken entry n) (hb : broken → b = true) {c : Child}
    {wanted : FieldName} (mem : c ∈ n.field wanted) : entry.Allows b n.kind (some wanted) c := by
  obtain ⟨labels, labelled, each⟩ := shown.labelled hb
  obtain ⟨i, label, child⟩ := labelled.mem_field.mp mem
  exact each i _ c label child

namespace Form

def demands : Form → List FieldName
  | nothing | whenBroken _ => FieldName.all
  | one label _ => label.toList
  | seq first second => first.demands ++ second.demands
  | alt left right => left.demands.filter right.demands.contains
  | list none item _ _ => item.demands
  | attempt form => form.demands
  | empty | run _ | ending | many _ | list (some _) _ _ _ => []

theorem Sentence.demands {form : Form} {parts : List Part} {next : TokenKind} {label : FieldName}
    (sentence : form.Sentence False parts next) (demanded : label ∈ form.demands) :
    some label ∈ parts.map Part.label := by
  induction form generalizing parts next with
  | nothing => exact sentence.elim
  | empty | run | ending | many => cases demanded
  | one own symbols =>
      obtain ⟨part, rfl, named, -⟩ := sentence
      rw [Form.demands, Option.mem_toList] at demanded
      simpa [named] using demanded.symm
  | seq first second ih₁ ih₂ =>
      obtain ⟨left, right, rfl, hl, hr⟩ := sentence
      rw [List.map_append, List.mem_append]
      exact (List.mem_append.mp demanded).imp (ih₁ hl) (ih₂ hr)
  | alt left right ih₁ ih₂ =>
      obtain ⟨inLeft, inRight⟩ := List.mem_filter.mp demanded
      obtain hl | hr := sentence
      · exact ih₁ hl inLeft
      · exact ih₂ hr (by simpa using inRight)
  | list ends item before after ih =>
      cases ends with
      | some => cases demanded
      | none =>
          cases sentence with
          | stop _ none => cases none
          | last item => simpa using .inl (by simpa using ih item demanded)
          | more _ item => simpa using .inl (by simpa using ih item demanded)
  | attempt form ih =>
      obtain whole | ⟨never, -⟩ := sentence
      · exact ih whole demanded
      · exact never.elim
  | whenBroken => exact sentence.1.elim

end Form

def NodeKind.mandatory : NodeKind → List FieldName
  | constItem => [.name, .value]
  | varItem => [.identifiers]
  | typeItem => [.name, .type]
  | shortVarDecl | declAssignment => [.identifiers, .values]
  | fnDecl => [.name, .signature]
  | methodDecl => [.receiver, .name, .signature]
  | receiver => [.name, .type]
  | callStmt => [.designator]
  | qualifiedName | enumItem | moduleRef => [.name]
  | closureType => [.signature]
  | builtinCall => [.name, .arguments]
  | mapEntry => [.key, .value]
  | _ => []

theorem Entry.demands_production (entry : Entry) (kind : NodeKind) :
    kind.mandatory ⊆ (entry.production kind).demands := by
  cases entry <;> cases kind <;> decide

theorem Shown.mandatory (shown : Shown False entry n) {wanted : FieldName}
    (mandatory : wanted ∈ n.kind.mandatory) : n.field wanted ≠ [] := by
  cases shown with
  | @node kind parts next depth shape licensed =>
      obtain sentence | ⟨never, -⟩ := shape
      · have labelled : Node.Labelled (Node.ofChildren kind (toChildren parts)
            (fieldsOf (parts.map Part.label)) 0) (parts.map Part.label) :=
          ⟨rfl, by simp [Node.ofChildren]⟩
        exact labelled.field_ne_nil (sentence.demands (entry.demands_production kind mandatory))
      · exact never.elim
  | @literal kind t splits =>
      obtain rfl | rfl | rfl | rfl := NodeKind.literal_of_splits splits <;> cases mandatory
  | @moduleRef word suffix =>
      obtain rfl : wanted = .name := by simpa [Node.ofChildren, NodeKind.mandatory] using mandatory
      have labelled : Node.Labelled (Node.ofChildren .moduleRef [.token word, .token suffix]
          [⟨.name, [0]⟩] word.span.start) [some .name, none] := ⟨rfl, rfl⟩
      exact labelled.field_ne_nil (by simp)

end UmkaSyntax
