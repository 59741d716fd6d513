import Mathlib.Data.List.TakeWhile
import UmkaSyntax.Tree.SExpression

namespace UmkaSyntax

inductive Leaf
  | name | escape | format
  deriving DecidableEq

namespace Leaf

def ofKind? : TokenKind → Option Leaf
  | .name => some name
  | .escape => some escape
  | .format => some format
  | _ => none

def printed : Leaf → String
  | name => "ident"
  | escape => "esc_seq"
  | format => "fmt_seq"

end Leaf

mutual

structure Skeleton where
  kind : NodeKind
  branches : List Branch

inductive Branch
  | leaf (field : Option FieldName) (kind : Leaf)
  | node (field : Option FieldName) (skeleton : Skeleton)

end

mutual

/-- The kind of a node and, in their order, its children that are nodes, names, escape or format
sequences, each with the name of its field. -/
def Node.skeleton : Node → Skeleton
  | ⟨kind, _, children, fields⟩ => ⟨kind, Child.branches fields 0 children⟩

def Child.branch? (field : Option FieldName) : Child → Option Branch
  | .token t => (Leaf.ofKind? t.kind).map (Branch.leaf field)
  | .node n => some (.node field n.skeleton)

def Child.branches (fields : List Field) : Nat → List Child → List Branch
  | _, [] => []
  | index, child :: more =>
      (child.branch? (Field.nameAt? fields index)).toList ++ Child.branches fields (index + 1) more

end

def FieldName.label : Option FieldName → List Char
  | some field => field.printed.toList ++ [':', ' ']
  | none => []

mutual

def Skeleton.write : Skeleton → List Char → List Char
  | ⟨kind, branches⟩, after =>
      '(' :: kind.grammarName.toList ++ Branch.writeAll branches (')' :: after)

def Branch.write : Branch → List Char → List Char
  | .leaf field kind, after =>
      ' ' :: FieldName.label field ++ '(' :: kind.printed.toList ++ ')' :: after
  | .node field skeleton, after => ' ' :: FieldName.label field ++ skeleton.write after

def Branch.writeAll : List Branch → List Char → List Char
  | [], after => after
  | branch :: more, after => branch.write (Branch.writeAll more after)

end

theorem Branch.writeAll_append (left right : List Branch) (after : List Char) :
    writeAll (left ++ right) after = writeAll left (writeAll right after) := by
  induction left with
  | nil => rfl
  | cons branch left ih => rw [List.cons_append, writeAll, writeAll, ih]

theorem Leaf.printed_ofKind? (kind : TokenKind) :
    kind.leafName? = (Leaf.ofKind? kind).map Leaf.printed := by
  cases kind <;> rfl

mutual

theorem Node.write_skeleton (n : Node) (after : List Char) :
    n.skeleton.write after = n.writeSExpression after := by
  obtain ⟨kind, span, children, fields⟩ := n
  rw [Node.skeleton, Skeleton.write, Child.write_branches fields children 0, Node.writeSExpression]

theorem Child.write_branch? (field : Option FieldName) (child : Child) (after : List Char) :
    Branch.writeAll (child.branch? field).toList after =
      child.writeSExpression (FieldName.label field) after := by
  cases child with
  | token t =>
      rw [Child.branch?, Child.writeSExpression, Leaf.printed_ofKind?]
      cases Leaf.ofKind? t.kind with
      | none => rfl
      | some leaf => rfl
  | node n =>
      rw [Child.branch?, Child.writeSExpression, ← Node.write_skeleton n]
      rfl

theorem Child.write_branches (fields : List Field) (children : List Child) (index : Nat)
    (after : List Char) :
    Branch.writeAll (Child.branches fields index children) after =
      Child.writeSExpressions fields index children after := by
  cases children with
  | nil => rfl
  | cons child more =>
      rw [Child.branches, Branch.writeAll_append, Child.write_branches fields more,
        Child.write_branch? _ child, Child.writeSExpressions]
      rfl

end

def isDelimiter (c : Char) : Bool := c == ' ' || c == ':' || c == '(' || c == ')'

def IsWord (text : String) : Prop := ∀ c ∈ text.toList, isDelimiter c = false

instance : DecidablePred IsWord := fun text =>
  List.decidableBAll (fun c => isDelimiter c = false) text.toList

theorem NodeKind.grammarName_isWord (kind : NodeKind) : IsWord kind.grammarName := by
  cases kind <;> decide

theorem NodeKind.grammarName_injective : Function.Injective grammarName := by
  have found : (fun text => all.find? (·.grammarName == text)) ∘ grammarName = some := by
    funext kind
    cases kind <;> rfl
  refine Function.Injective.of_comp (f := fun text => all.find? (·.grammarName == text)) ?_
  rw [found]
  exact fun _ _ eq => Option.some.inj eq

theorem FieldName.printed_isWord (field : FieldName) : IsWord field.printed := by
  cases field <;> decide

theorem FieldName.printed_injective : Function.Injective printed := by
  have found : (fun text => all.find? (·.printed == text)) ∘ printed = some := by
    funext field
    cases field <;> rfl
  refine Function.Injective.of_comp (f := fun text => all.find? (·.printed == text)) ?_
  rw [found]
  exact fun _ _ eq => Option.some.inj eq

theorem Leaf.printed_isWord (leaf : Leaf) : IsWord leaf.printed := by
  cases leaf <;> decide

theorem Leaf.printed_injective : Function.Injective printed := by
  intro leaf other eq
  cases leaf <;> cases other <;> first | rfl | exact absurd eq (by decide)

theorem Leaf.printed_ne_grammarName (leaf : Leaf) (kind : NodeKind) :
    leaf.printed ≠ kind.grammarName := by
  cases leaf <;> cases kind <;> decide

theorem IsWord.append_inj {u v : String} (left : IsWord u) (right : IsWord v) {c d : Char}
    {a b : List Char} (stops : isDelimiter c = true) (stops' : isDelimiter d = true)
    (eq : u.toList ++ c :: a = v.toList ++ d :: b) : u = v ∧ c :: a = d :: b := by
  have front : ∀ {w : String} {c : Char} (a : List Char), IsWord w → isDelimiter c = true →
      (w.toList ++ c :: a).takeWhile (!isDelimiter ·) = w.toList := by
    intro w c a word stops
    rw [List.takeWhile_append_of_pos fun x mem => by simp [word x mem]]
    simp [stops]
  have same : u.toList = v.toList := by
    rw [← front a left stops, eq, front b right stops']
  exact ⟨String.toList_injective same, (List.append_inj eq (congrArg _ same)).2⟩

theorem FieldName.label_inj {field other : Option FieldName} {a b : List Char}
    (eq : label field ++ '(' :: a = label other ++ '(' :: b) : field = other ∧ a = b := by
  have labelled : ∀ (field : FieldName) (c : List Char),
      label (some field) ++ '(' :: c = field.printed.toList ++ ':' :: ' ' :: '(' :: c := by
    intro field c
    simp [label]
  -- a branch without a label begins with the empty word
  have unlabelled : ∀ c : List Char, label none ++ '(' :: c = "".toList ++ '(' :: c := fun _ => rfl
  have empty : IsWord "" := by decide
  cases field with
  | none =>
      cases other with
      | none => exact ⟨rfl, (List.cons.inj eq).2⟩
      | some other =>
          rw [unlabelled, labelled] at eq
          exact absurd (empty.append_inj other.printed_isWord rfl rfl eq).2 (by simp)
  | some field =>
      cases other with
      | none =>
          rw [unlabelled, labelled] at eq
          exact absurd (field.printed_isWord.append_inj empty rfl rfl eq).2 (by simp)
      | some other =>
          rw [labelled, labelled] at eq
          obtain ⟨same, rest⟩ := field.printed_isWord.append_inj other.printed_isWord rfl rfl eq
          exact ⟨congrArg some (printed_injective same), by simpa using rest⟩

theorem Branch.writeAll_delimited (branches : List Branch) (after : List Char) :
    ∃ c more, writeAll branches (')' :: after) = c :: more ∧ isDelimiter c = true := by
  cases branches with
  | nil => exact ⟨_, _, rfl, rfl⟩
  | cons branch more => cases branch <;> exact ⟨_, _, rfl, rfl⟩

theorem Skeleton.write_opens (s : Skeleton) (after : List Char) : ∃ c more,
    s.write after = '(' :: (s.kind.grammarName.toList ++ c :: more) ∧ isDelimiter c = true := by
  obtain ⟨kind, branches⟩ := s
  obtain ⟨c, more, eq, stops⟩ := Branch.writeAll_delimited branches after
  exact ⟨c, more, by rw [write, eq, List.cons_append], stops⟩

theorem Branch.write_leaf_ne_node {field other : Option FieldName} {kind : Leaf} {s : Skeleton}
    {a b : List Char} : (leaf field kind).write a ≠ (node other s).write b := by
  intro eq
  obtain ⟨c, more, opens, stops⟩ := s.write_opens b
  rw [write, write, opens] at eq
  simp only [List.cons_append, List.append_assoc, List.cons.injEq, true_and] at eq
  have names := (FieldName.label_inj eq).2
  have same := (kind.printed_isWord.append_inj s.kind.grammarName_isWord rfl stops names).1
  exact kind.printed_ne_grammarName s.kind same

mutual

theorem Skeleton.write_inj : ∀ {s t : Skeleton} {a b : List Char},
    s.write a = t.write b → s = t ∧ a = b
  | ⟨kind, branches⟩, ⟨other, others⟩, a, b, eq => by
      obtain ⟨c, rest, left, stops⟩ := Branch.writeAll_delimited branches a
      obtain ⟨d, rest', right, stops'⟩ := Branch.writeAll_delimited others b
      rw [Skeleton.write, Skeleton.write, left, right] at eq
      obtain ⟨names, same⟩ :=
        kind.grammarName_isWord.append_inj other.grammarName_isWord stops stops' (List.cons.inj eq).2
      rw [← left, ← right] at same
      obtain ⟨rfl, rfl⟩ := Branch.writeAll_inj same
      exact ⟨by rw [NodeKind.grammarName_injective names], rfl⟩

theorem Branch.write_inj : ∀ {branch other : Branch} {a b : List Char},
    branch.write a = other.write b → branch = other ∧ a = b
  | .leaf field kind, .leaf field' kind', a, b, eq => by
      rw [Branch.write, Branch.write] at eq
      simp only [List.cons_append, List.append_assoc, List.cons.injEq, true_and] at eq
      obtain ⟨rfl, names⟩ := FieldName.label_inj eq
      obtain ⟨same, rest⟩ := kind.printed_isWord.append_inj kind'.printed_isWord rfl rfl names
      exact ⟨by rw [Leaf.printed_injective same], (List.cons.inj rest).2⟩
  | .leaf _ _, .node _ _, a, b, eq => absurd eq Branch.write_leaf_ne_node
  | .node _ _, .leaf _ _, a, b, eq => absurd eq.symm Branch.write_leaf_ne_node
  | .node field s, .node field' t, a, b, eq => by
      obtain ⟨c, more, left, -⟩ := s.write_opens a
      obtain ⟨d, more', right, -⟩ := t.write_opens b
      rw [Branch.write, Branch.write, left, right] at eq
      simp only [List.cons_append, List.cons.injEq, true_and] at eq
      obtain ⟨rfl, inner⟩ := FieldName.label_inj eq
      obtain ⟨rfl, rfl⟩ := Skeleton.write_inj (left.trans (inner ▸ right.symm))
      exact ⟨rfl, rfl⟩

theorem Branch.writeAll_inj : ∀ {branches others : List Branch} {a b : List Char},
    Branch.writeAll branches (')' :: a) = Branch.writeAll others (')' :: b) →
      branches = others ∧ a = b
  | [], [], a, b, eq => ⟨rfl, (List.cons.inj eq).2⟩
  | [], other :: others, a, b, eq => by
      cases other <;> exact absurd (List.cons.inj eq).1 (by decide)
  | branch :: branches, [], a, b, eq => by
      cases branch <;> exact absurd (List.cons.inj eq).1 (by decide)
  | branch :: branches, other :: others, a, b, eq => by
      obtain ⟨rfl, rest⟩ := Branch.write_inj eq
      obtain ⟨rfl, rfl⟩ := Branch.writeAll_inj rest
      exact ⟨rfl, rfl⟩

end

/-- Two nodes have the same S-expression if, and only if, they have the same skeleton. -/
theorem Node.sExpression_eq_iff (a b : Node) :
    a.sExpression = b.sExpression ↔ a.skeleton = b.skeleton := by
  rw [Node.sExpression, Node.sExpression, ← Node.write_skeleton, ← Node.write_skeleton]
  constructor
  · intro eq
    exact (Skeleton.write_inj (String.ofList_injective eq)).1
  · intro eq
    rw [eq]

end UmkaSyntax
