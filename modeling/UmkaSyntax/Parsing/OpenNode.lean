import UmkaSyntax.Tree.Basic

/-!
Nodes under construction. A child may be named before it is there or after; a node may be split, so
that its last children become the children of a new one.
-/

namespace UmkaSyntax

structure OpenNode where
  kind : NodeKind
  children : Array Child
  fields : List Field
  offset : Nat
  /-- The name that waits for the next child. -/
  pending : Option FieldName

namespace OpenNode

def empty (kind : NodeKind) (offset : Nat) : OpenNode := ⟨kind, #[], [], offset, none⟩

/-- Adds an index to the field of the name, which comes last if it is new. -/
def addToField (label : FieldName) (index : Nat) : List Field → List Field
  | [] => [⟨label, [index]⟩]
  | field :: more =>
      if field.name = label then { field with children := field.children ++ [index] } :: more
      else field :: addToField label index more

def nameLast (label : FieldName) (n : OpenNode) : OpenNode :=
  if n.children.isEmpty then n
  else { n with fields := addToField label (n.children.size - 1) n.fields }

def add (child : Child) (n : OpenNode) : OpenNode :=
  let grown := { n with children := n.children.push child, pending := none }
  match n.pending with
  | some label => grown.nameLast label
  | none => grown

def toNode (n : OpenNode) : Node :=
  Node.ofChildren n.kind n.children.toList n.fields n.offset

def fieldsBefore (count : Nat) (fields : List Field) : List Field :=
  (fields.map fun field => { field with children := field.children.filter (· < count) }).filter
    (!·.children.isEmpty)

/-- The fields of the children after the first `count`, which are counted anew. -/
def fieldsFrom (count : Nat) (fields : List Field) : List Field :=
  (fields.map fun field =>
    { field with children := (field.children.filter (count ≤ ·)).map (· - count) }).filter
    (!·.children.isEmpty)

/-- Keeps the first `count` children and moves the others, with their names, to a new node. -/
def split (count : Nat) (kind : NodeKind) (offset : Nat) (n : OpenNode) :
    OpenNode × OpenNode :=
  let count := min count n.children.size
  let moved := n.children.extract count n.children.size
  ({ n with
      children := n.children.extract 0 count
      fields := fieldsBefore count n.fields },
    { kind := kind
      children := moved
      fields := fieldsFrom count n.fields
      offset := (moved[0]?.map (·.span.start)).getD offset
      pending := none })

end OpenNode

end UmkaSyntax
