import Mathlib.Data.List.Induction
import UmkaSyntax.Proofs.Parsing.Growth

/-!
Trees as the grammar sees them. A part still has the tokens of the source: keywords are names,
literals are whole, and each child carries its own label. The tree of a parse is the rendering of
such a part.
-/

namespace UmkaSyntax

def NodeKind.flavor : NodeKind → Flavor
  | formatLiteral => .format
  | pathLiteral => .path
  | _ => .plain

inductive Part
  | token (label : Option FieldName) (t : Token)
  | keyword (label : Option FieldName) (t : Token)
  | literal (label : Option FieldName) (kind : NodeKind) (t : Token)
  | node (label : Option FieldName) (kind : NodeKind) (whole : Bool) (parts : List Part)

def fieldsOf (labels : List (Option FieldName)) : List Field :=
  labels.zipIdx.foldl
    (fun fields (label, index) => label.elim fields (OpenNode.addToField · index fields)) []

theorem fieldsOf_concat (labels : List (Option FieldName)) (label : Option FieldName) :
    fieldsOf (labels ++ [label]) =
      label.elim (fieldsOf labels) (OpenNode.addToField · labels.length (fieldsOf labels)) := by
  simp [fieldsOf, List.zipIdx_append, List.foldl_append]

def placesOf (labels : List (Option FieldName)) (word : FieldName) : List Nat :=
  (List.range labels.length).filter fun i => labels[i]? = some (some word)

theorem placesOf_concat (labels : List (Option FieldName)) (label : Option FieldName)
    (word : FieldName) :
    placesOf (labels ++ [label]) word =
      placesOf labels word ++ if label = some word then [labels.length] else [] := by
  have before : (List.range labels.length).filter
      (fun i => (labels ++ [label])[i]? = some (some word)) = placesOf labels word := by
    refine List.filter_congr fun i mem => ?_
    rw [List.getElem?_append_left (List.mem_range.mp mem)]
  rw [placesOf, List.length_append, List.length_singleton, List.range_succ, List.filter_append,
    before]
  by_cases same : label = some word
  · simp [same]
  · simp [same]

theorem mem_placesOf {labels : List (Option FieldName)} {word : FieldName} {i : Nat} :
    i ∈ placesOf labels word ↔ labels[i]? = some (some word) := by
  simp only [placesOf, List.mem_filter, List.mem_range, decide_eq_true_eq, and_iff_right_iff_imp]
  intro eq
  exact (List.getElem?_eq_some_iff.mp eq).1

theorem mem_addToField {label : FieldName} {index : Nat} {fields : List Field} {field : Field}
    (distinct : (fields.map (·.name)).Nodup) :
    field ∈ OpenNode.addToField label index fields ↔
      if field.name = label then
        (∃ old ∈ fields, old.name = label ∧ field.children = old.children ++ [index]) ∨
          (label ∉ fields.map (·.name) ∧ field.children = [index])
      else field ∈ fields := by
  induction fields with
  | nil =>
      obtain ⟨own, children⟩ := field
      simp only [OpenNode.addToField, List.mem_singleton, Field.mk.injEq, List.map_nil,
        List.not_mem_nil, false_and, exists_false, not_false_eq_true, true_and, false_or]
      split <;> simp_all
  | cons first more ih =>
      rw [List.map_cons, List.nodup_cons] at distinct
      rw [OpenNode.addToField]
      split
      next same =>
        subst same
        obtain ⟨own, children⟩ := field
        by_cases eq : own = first.name
        · subst eq
          have others : ∀ old ∈ more, old.name ≠ first.name := fun old mem eq =>
            distinct.1 (eq ▸ List.mem_map_of_mem mem)
          have absent : ∀ children, (⟨first.name, children⟩ : Field) ∉ more :=
            fun _ mem => others _ mem rfl
          simp only [List.mem_cons, Field.mk.injEq, true_and, if_true, List.map_cons, true_or,
            not_true, false_and, or_false, exists_eq_or_imp, absent]
          constructor
          · exact .inl
          · rintro (eq | ⟨old, mem, same, -⟩)
            · exact eq
            · exact absurd same (others old mem)
        · have ne : (⟨own, children⟩ : Field) ≠ first := fun eq' => eq (congrArg Field.name eq')
          simp [eq, ne]
      next other =>
        rw [List.mem_cons, ih distinct.2]
        by_cases eq : field.name = label
        · have ne : field ≠ first := fun eq' => other (eq' ▸ eq)
          have ne' : label ≠ first.name := Ne.symm other
          simp [eq, ne, other, ne']
        · simp [eq]

theorem names_addToField (label : FieldName) (index : Nat) (fields : List Field) :
    (OpenNode.addToField label index fields).map (·.name) =
      if label ∈ fields.map (·.name) then fields.map (·.name)
      else fields.map (·.name) ++ [label] := by
  induction fields with
  | nil => simp [OpenNode.addToField]
  | cons first more ih =>
      rw [OpenNode.addToField]
      split
      next same => simp [same]
      next other =>
        rw [List.map_cons, ih, List.map_cons]
        have ne : label ≠ first.name := Ne.symm other
        by_cases mem : label ∈ more.map (·.name)
        · simp [mem]
        · simp only [mem, if_false, List.mem_cons, ne, or_self, List.cons_append]

theorem fieldsOf_spec (labels : List (Option FieldName)) :
    ((fieldsOf labels).map (·.name)).Nodup ∧ ∀ field : Field, field ∈ fieldsOf labels ↔
      some field.name ∈ labels ∧ field.children = placesOf labels field.name := by
  -- Children come one by one, so the induction is on the last label.
  induction labels using List.reverseRecOn with
  | nil => simp [fieldsOf]
  | append_singleton labels label ih =>
      obtain ⟨distinct, members⟩ := ih
      rw [fieldsOf_concat]
      cases label with
      | none =>
          refine ⟨distinct, fun field => ?_⟩
          simp [members, placesOf_concat]
      | some word =>
          have named : word ∈ (fieldsOf labels).map (·.name) ↔ some word ∈ labels := by
            rw [List.mem_map]
            constructor
            · rintro ⟨field, mem, rfl⟩
              exact ((members field).mp mem).1
            · intro mem
              exact ⟨⟨word, placesOf labels word⟩, (members _).mpr ⟨mem, rfl⟩, rfl⟩
          have old : ∀ children, (∃ old ∈ fieldsOf labels, old.name = word ∧
              children = old.children ++ [labels.length]) ↔
                some word ∈ labels ∧ children = placesOf labels word ++ [labels.length] := by
            intro children
            constructor
            · rintro ⟨field, mem, rfl, rfl⟩
              obtain ⟨occurs, eq⟩ := (members field).mp mem
              exact ⟨occurs, by rw [eq]⟩
            · rintro ⟨occurs, rfl⟩
              exact ⟨⟨word, placesOf labels word⟩, (members _).mpr ⟨occurs, rfl⟩, rfl, rfl⟩
          simp only [Option.elim_some]
          constructor
          · rw [names_addToField]
            split
            · exact distinct
            · rename_i absent
              exact List.nodup_append.mpr ⟨distinct, by simp, fun a mem b hb eq =>
                absent (List.mem_singleton.mp hb ▸ eq ▸ mem)⟩
          intro field
          rw [mem_addToField distinct, placesOf_concat, old, named]
          obtain ⟨own, children⟩ := field
          by_cases same : own = word
          · subst same
            by_cases occurs : some own ∈ labels
            · simp [occurs]
            · have none : placesOf labels own = [] := by
                rw [List.eq_nil_iff_forall_not_mem]
                intro i mem
                exact occurs (List.mem_of_getElem? (mem_placesOf.mp mem))
              simp [occurs, none]
          · have other : ¬ word = own := fun eq => same eq.symm
            simp [members, same, other]

theorem index_lt_of_fieldsOf {labels : List (Option FieldName)} {field : Field}
    (mem : field ∈ fieldsOf labels) {i : Nat} (hi : i ∈ field.children) : i < labels.length := by
  rw [(((fieldsOf_spec labels).2 field).mp mem).2, mem_placesOf] at hi
  exact (List.getElem?_eq_some_iff.mp hi).1

theorem children_ne_nil_of_fieldsOf {labels : List (Option FieldName)} {field : Field}
    (mem : field ∈ fieldsOf labels) : field.children ≠ [] := by
  obtain ⟨named, eq⟩ := ((fieldsOf_spec labels).2 field).mp mem
  obtain ⟨i, place⟩ := List.mem_iff_getElem?.mp named
  rw [eq]
  exact List.ne_nil_of_mem (mem_placesOf.mpr place)

namespace Part

def label : Part → Option FieldName
  | token label _ | keyword label _ | literal label _ _ | node label _ _ _ => label

def named (field : FieldName) : Part → Part
  | token _ t => token field t
  | keyword _ t => keyword field t
  | literal _ kind t => literal field kind t
  | node _ kind whole parts => node field kind whole parts

/-- The part as if nothing were missing at its end. -/
def mended : Part → Part
  | node label kind _ parts => node label kind true parts
  | part => part

mutual

def toChild : Part → Child
  | token _ t => .token t
  | keyword _ t => .token (State.asKeyword t)
  | literal _ kind t => .node ((LiteralParts.ofToken kind.flavor t).toNode kind t.span.start)
  | node _ kind _ parts => .node (Node.ofChildren kind (toChildren parts) (fieldsOf (parts.map label)) 0)

def toChildren : List Part → List Child
  | [] => []
  | part :: more => part.toChild :: toChildren more

end

mutual

def tokens : Part → List Token
  | token _ t | keyword _ t | literal _ _ t => [t]
  | node _ _ _ parts => tokensOf parts

def tokensOf : List Part → List Token
  | [] => []
  | part :: more => part.tokens ++ tokensOf more

end

mutual

def errors : Part → List LexicalError
  | token _ _ | keyword _ _ => []
  | literal _ kind t => (LiteralParts.ofToken kind.flavor t).errors
  | node _ _ _ parts => errorsOf parts

def errorsOf : List Part → List LexicalError
  | [] => []
  | part :: more => part.errors ++ errorsOf more

end

@[simp] theorem label_named (field : FieldName) (part : Part) : (part.named field).label = field := by
  cases part <;> rfl

@[simp] theorem toChild_named (field : FieldName) (part : Part) :
    (part.named field).toChild = part.toChild := by
  cases part <;> simp [named, toChild]

@[simp] theorem tokens_named (field : FieldName) (part : Part) :
    (part.named field).tokens = part.tokens := by
  cases part <;> simp [named, tokens]

@[simp] theorem errors_named (field : FieldName) (part : Part) :
    (part.named field).errors = part.errors := by
  cases part <;> simp [named, errors]

@[simp] theorem label_mended (part : Part) : part.mended.label = part.label := by
  cases part <;> rfl

@[simp] theorem tokens_mended (part : Part) : part.mended.tokens = part.tokens := by
  cases part <;> simp [mended, tokens]

@[simp] theorem tokensOf_append (left right : List Part) :
    tokensOf (left ++ right) = tokensOf left ++ tokensOf right := by
  induction left with
  | nil => rfl
  | cons part more ih => simp [tokensOf, ih]

@[simp] theorem errorsOf_append (left right : List Part) :
    errorsOf (left ++ right) = errorsOf left ++ errorsOf right := by
  induction left with
  | nil => rfl
  | cons part more ih => simp [errorsOf, ih]

@[simp] theorem tokensOf_node (label : Option FieldName) (kind : NodeKind) (whole : Bool)
    (parts : List Part) : tokensOf [node label kind whole parts] = tokensOf parts := by
  simp [tokensOf, tokens]

@[simp] theorem errorsOf_node (label : Option FieldName) (kind : NodeKind) (whole : Bool)
    (parts : List Part) : errorsOf [node label kind whole parts] = errorsOf parts := by
  simp [errorsOf, errors]

theorem toChildren_eq_map (parts : List Part) : toChildren parts = parts.map toChild := by
  induction parts with
  | nil => rfl
  | cons part more ih => simp [toChildren, ih]

@[simp] theorem toChildren_append (left right : List Part) :
    toChildren (left ++ right) = toChildren left ++ toChildren right := by
  simp [toChildren_eq_map]

@[simp] theorem length_toChildren (parts : List Part) : (toChildren parts).length = parts.length := by
  simp [toChildren_eq_map]

end Part

namespace OpenNode

structure Shows (n : OpenNode) (parts : List Part) : Prop where
  children : n.children.toList = Part.toChildren parts
  fields : n.fields = fieldsOf (parts.map Part.label)

variable {n : OpenNode} {parts : List Part} {part : Part}

theorem empty_shows (kind : NodeKind) (offset : Nat) : (empty kind offset).Shows [] := ⟨rfl, rfl⟩

theorem Shows.size_eq (shows : n.Shows parts) : n.children.size = parts.length := by
  rw [← Array.length_toList, shows.children, Part.length_toChildren]

theorem Shows.isEmpty_iff (shows : n.Shows parts) : n.children.isEmpty = true ↔ parts = [] := by
  rw [Array.isEmpty_iff_size_eq_zero, shows.size_eq, List.length_eq_zero_iff]

theorem fields_nameLast (field : FieldName) (filled : n.children.size ≠ 0) :
    (n.nameLast field).fields = addToField field (n.children.size - 1) n.fields := by
  have some : n.children.isEmpty = false := by simpa [Array.isEmpty] using filled
  rw [nameLast, if_neg (by simp [some])]

theorem Shows.add (shows : n.Shows parts) (label : part.label = n.pending) :
    (n.add part.toChild).Shows (parts ++ [part]) := by
  constructor
  · simp [shows.children, Part.toChildren]
  · rw [List.map_append, List.map_singleton, label, fieldsOf_concat, OpenNode.add]
    cases n.pending with
    | none => exact shows.fields
    | some field =>
        rw [fields_nameLast _ (by simp)]
        simp [shows.size_eq, shows.fields]

theorem Shows.nameLast (shows : n.Shows (parts ++ [part])) (unnamed : part.label = none)
    (field : FieldName) : (n.nameLast field).Shows (parts ++ [part.named field]) := by
  have size := shows.size_eq
  constructor
  · simp [shows.children, Part.toChildren]
  · rw [fields_nameLast _ (by simp [size]), size, shows.fields]
    simp [fieldsOf_concat, unnamed]

theorem Shows.split (shows : n.Shows (parts ++ [part])) (unnamed : part.label = none)
    (kind : NodeKind) (offset : Nat) :
    (n.split (n.children.size - 1) kind offset).1.Shows parts ∧
      (n.split (n.children.size - 1) kind offset).2.Shows [part] := by
  have size : n.children.size = parts.length + 1 := by simp [shows.size_eq]
  have count : min (n.children.size - 1) n.children.size = parts.length := by omega
  have fields : n.fields = fieldsOf (parts.map Part.label) := by
    simp [shows.fields, fieldsOf_concat, unnamed]
  have inside : ∀ field ∈ n.fields, ∀ i ∈ field.children, i < parts.length := by
    intro field mem i hi
    rw [fields] at mem
    simpa using index_lt_of_fieldsOf mem hi
  have before : fieldsBefore parts.length n.fields = n.fields := by
    rw [fieldsBefore, List.map_congr_left fun field mem => by
      rw [List.filter_eq_self.mpr fun i hi => decide_eq_true (inside field mem i hi)], List.map_id']
    refine List.filter_eq_self.mpr fun field mem => ?_
    rw [fields] at mem
    simpa using children_ne_nil_of_fieldsOf mem
  have behind : fieldsFrom parts.length n.fields = [] := by
    rw [fieldsFrom, List.filter_eq_nil_iff]
    intro field mem
    obtain ⟨old, isOld, rfl⟩ := List.mem_map.mp mem
    simpa using inside old isOld
  constructor
  · constructor
    · simp only [OpenNode.split, Array.toList_extract, List.extract_eq_take_drop, shows.children,
        size]
      simp
    · simpa only [OpenNode.split, count, before] using fields
  · constructor
    · simp [OpenNode.split, size, shows.children, Part.toChildren]
    · simpa only [OpenNode.split, count, behind, List.map_singleton, unnamed] using by decide

theorem Shows.toChild (shows : n.Shows parts) (filled : parts ≠ []) (label : Option FieldName)
    (whole : Bool) : .node n.toNode = (Part.node label n.kind whole parts).toChild := by
  obtain ⟨first, more, rfl⟩ := List.exists_cons_of_ne_nil filled
  rw [Part.toChild, toNode, shows.children, shows.fields]
  rfl

end OpenNode

def kindAhead (tokens : List Token) : TokenKind := (tokens.head?.map (·.kind)).getD .endOfInput

@[simp] theorem kindAhead_nil : kindAhead [] = .endOfInput := rfl

@[simp] theorem kindAhead_cons (t : Token) (more : List Token) : kindAhead (t :: more) = t.kind := rfl

namespace Part

def firstKind (parts : List Part) (next : TokenKind) : TokenKind :=
  ((tokensOf parts).head?.map (·.kind)).getD next

@[simp] theorem firstKind_nil (next : TokenKind) : firstKind [] next = next := rfl

@[simp] theorem firstKind_append (left right : List Part) (next : TokenKind) :
    firstKind (left ++ right) next = firstKind left (firstKind right next) := by
  rw [firstKind, tokensOf_append, firstKind, firstKind]
  cases tokensOf left <;> rfl

@[simp] theorem kindAhead_append (parts : List Part) (tokens : List Token) :
    kindAhead (tokensOf parts ++ tokens) = firstKind parts (kindAhead tokens) := by
  rw [firstKind]
  cases tokensOf parts <;> rfl

theorem firstKind_of_ne_nil {parts : List Part} (some : tokensOf parts ≠ []) (k next : TokenKind) :
    firstKind parts k = firstKind parts next := by
  obtain ⟨t, more, eq⟩ := List.exists_cons_of_ne_nil some
  simp [firstKind, eq]

section
variable (R : Nat → NodeKind → Bool → List Part → TokenKind → Prop)

mutual

/-- The condition holds of every node of the part. It may look at the number of nodes around the
node, at its kind, whether it is whole, at its parts, and at the token after it. -/
def Licensed (depth : Nat) : Part → TokenKind → Prop
  | node _ kind whole parts, next =>
      R depth kind whole parts next ∧ LicensedAll (depth + 1) parts next
  | _, _ => True

def LicensedAll (depth : Nat) : List Part → TokenKind → Prop
  | [], _ => True
  | part :: more, next => Licensed depth part (firstKind more next) ∧ LicensedAll depth more next

end

end

section
variable {R S : Nat → NodeKind → Bool → List Part → TokenKind → Prop} {depth : Nat}

theorem licensedAll_append {left right : List Part} {next : TokenKind} :
    LicensedAll R depth (left ++ right) next ↔
      LicensedAll R depth left (firstKind right next) ∧ LicensedAll R depth right next := by
  induction left with
  | nil => simp [LicensedAll]
  | cons part more ih => simp [LicensedAll, ih, and_assoc]

theorem licensed_named {field : FieldName} {part : Part} {next : TokenKind} :
    Licensed R depth (part.named field) next ↔ Licensed R depth part next := by
  cases part <;> simp [named, Licensed]

mutual

theorem Licensed.imp (weaker : ∀ depth kind whole parts next,
    R depth kind whole parts next → S depth kind whole parts next) {depth : Nat} :
    ∀ {part : Part} {next : TokenKind}, Licensed R depth part next → Licensed S depth part next
  | .node _ _ _ _, _, licensed =>
      ⟨weaker _ _ _ _ _ licensed.1, LicensedAll.imp weaker licensed.2⟩
  | .token _ _, _, _ | .keyword _ _, _, _ | .literal _ _ _, _, _ => trivial

theorem LicensedAll.imp (weaker : ∀ depth kind whole parts next,
    R depth kind whole parts next → S depth kind whole parts next) {depth : Nat} :
    ∀ {parts : List Part} {next : TokenKind},
      LicensedAll R depth parts next → LicensedAll S depth parts next
  | [], _, _ => trivial
  | _ :: _, _, licensed => ⟨Licensed.imp weaker licensed.1, LicensedAll.imp weaker licensed.2⟩

end

end

end Part

end UmkaSyntax
