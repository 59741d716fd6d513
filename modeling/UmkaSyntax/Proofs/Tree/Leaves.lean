import UmkaSyntax.Proofs.Tree.Nodes

namespace UmkaSyntax

namespace Part

mutual

def leaves : Part → List Part
  | token label t => [token label t]
  | keyword label t => [keyword label t]
  | literal label kind t => [literal label kind t]
  | node _ _ _ parts => leavesOf parts

def leavesOf : List Part → List Part
  | [] => []
  | part :: more => part.leaves ++ leavesOf more

end

def shown (part : Part) : List Token := part.toChild.tokens

theorem tokens_toNode (literal : LiteralParts) (kind : NodeKind) (offset : Nat) :
    (literal.toNode kind offset).tokens = literal.tokens := by
  rw [LiteralParts.toNode, Node.tokens_ofChildren, LiteralParts.tokens]
  induction literal.pieces with
  | nil => rfl
  | cons piece pieces ih =>
      rw [List.map_cons, Child.tokensOf, ih, List.flatMap_cons]
      cases piece with
      | token t => rfl
      | module word suffix => simp [LiteralPiece.toChild, LiteralPiece.tokens, Child.tokens, Child.tokensOf]

mutual

theorem shown_eq : ∀ part : Part, part.shown = part.leaves.flatMap shown
  | token _ _ | keyword _ _ | literal _ _ _ => by simp [leaves]
  | node label kind whole parts => by
      rw [leaves, ← tokensOf_toChildren parts, shown, toChild, Child.tokens, Node.tokens_ofChildren]

theorem tokensOf_toChildren : ∀ parts : List Part,
    Child.tokensOf (toChildren parts) = (leavesOf parts).flatMap shown
  | [] => rfl
  | part :: more => by
      rw [toChildren, Child.tokensOf, leavesOf, List.flatMap_append, ← shown_eq part,
        tokensOf_toChildren more, shown]

end

mutual

theorem tokens_eq_leaves : ∀ part : Part, part.tokens = part.leaves.flatMap tokens
  | token _ _ | keyword _ _ | literal _ _ _ => by simp [leaves]
  | node _ _ _ parts => by rw [tokens, leaves, tokensOf_eq_leaves parts]

theorem tokensOf_eq_leaves : ∀ parts : List Part, tokensOf parts = (leavesOf parts).flatMap tokens
  | [] => rfl
  | part :: more => by
      rw [tokensOf, leavesOf, List.flatMap_append, tokens_eq_leaves part, tokensOf_eq_leaves more]

end

mutual

theorem errors_eq_leaves : ∀ part : Part, part.errors = part.leaves.flatMap errors
  | token _ _ | keyword _ _ | literal _ _ _ => by simp [leaves]
  | node _ _ _ parts => by rw [errors, leaves, errorsOf_eq_leaves parts]

theorem errorsOf_eq_leaves : ∀ parts : List Part, errorsOf parts = (leavesOf parts).flatMap errors
  | [] => rfl
  | part :: more => by
      rw [errorsOf, leavesOf, List.flatMap_append, errors_eq_leaves part, errorsOf_eq_leaves more]

end

/-- A token is shown as it is unless it is a literal, only names that spell keywords are shown as
such, and literals are split in the flavor of their node. -/
def Faithful : Part → Prop
  | token _ t => t.kind.isLiteral = false
  | keyword _ t => t.kind = .name ∧ (Keyword.ofSpelling? t.text).isSome = true
  | literal _ kind t => kind.splits t.kind = true
  | node _ _ _ _ => False

def shownKinds : List TokenKind :=
  [.keyword, .quote, .literalText, .escape, .format, .name, .moduleSuffix]

theorem Faithful.kind_shown {leaf : Part} (faithful : leaf.Faithful) : ∀ t ∈ leaf.shown,
    t ∈ leaf.tokens ∧ t.kind.isLiteral = false ∨ t.kind ∈ shownKinds := by
  cases leaf with
  | token label t =>
      intro u mem
      obtain rfl : u = t := by simpa [Part.shown, toChild, Child.tokens] using mem
      exact .inl ⟨by simp [tokens], faithful⟩
  | keyword label t =>
      intro u mem
      obtain rfl : u = State.asKeyword t := by simpa [Part.shown, toChild, Child.tokens] using mem
      rw [State.asKeyword, if_pos faithful.1]
      exact .inr List.mem_cons_self
  | literal label kind t =>
      intro u mem
      rw [Part.shown, toChild, Child.tokens, tokens_toNode] at mem
      exact .inr (List.mem_cons_of_mem _ (LiteralParts.kind_of_mem_tokens mem))
  | node => exact faithful.elim

theorem Faithful.shown {leaf : Part} (faithful : leaf.Faithful) :
    ∀ t ∈ leaf.shown, t.kind.isLiteral = false := by
  intro t mem
  obtain ⟨-, plain⟩ | kind := faithful.kind_shown t mem
  · exact plain
  · have kinds : ∀ k ∈ shownKinds, k.isLiteral = false := by decide
    exact kinds _ kind

end Part

open UmkaSyntax.Part

def Symbol.isPlain : Symbol → Bool
  | token kind => !kind.isLiteral
  | _ => true

theorem production_plain (kind : NodeKind) :
    ∀ place ∈ (production kind).places true, place.2.isPlain = true := by
  cases kind <;> decide

theorem Entry.form_plain (entry : Entry) :
    ∀ place ∈ entry.form.places true, place.2.isPlain = true := by
  cases entry <;> decide

section
variable {broken : Prop}

mutual

theorem Part.Licensed.faithful : ∀ {depth : Nat} {part : Part} {next : TokenKind} {symbol : Symbol},
    Licensed (Shape broken) depth part next → symbol.Fits part.mended → symbol.isPlain = true →
      ∀ leaf ∈ part.leaves, leaf.Faithful
  | _, .token label t, _, symbol, _, fits, plain => by
      rw [leaves, List.forall_mem_singleton]
      cases symbol with
      | token kind =>
          obtain rfl : t.kind = kind := fits
          simpa [Symbol.isPlain, Faithful] using plain
      | builtin family =>
          rw [Faithful, fits.1]
          rfl
      | raw => exact fits.1
      | keyword | literal | node => exact fits.elim
  | _, .keyword label t, _, symbol, _, fits, _ => by
      rw [leaves, List.forall_mem_singleton]
      cases symbol with
      | keyword k => exact ⟨fits.1, by simp [fits.2]⟩
      | token | builtin | raw | literal | node => exact fits.elim
  | _, .literal label kind t, _, symbol, _, fits, _ => by
      rw [leaves, List.forall_mem_singleton]
      exact fits.splits
  | _, .node label kind whole parts, _, _, ⟨shape, inner⟩, _, _ => by
      rw [leaves]
      refine Part.LicensedAll.faithful inner fun part mem => ?_
      have placed : Form.Placed ((production kind).places true) part := by
        obtain ⟨-, ⟨-, sentence⟩ | ⟨-, -, unfinished⟩⟩ := shape
        · exact sentence.placed (fun _ => rfl) part mem
        · exact Form.Unfinished.placed (fun _ _ sentence => sentence.placed fun _ => rfl) unfinished
            part mem
      obtain ⟨place, isPlace, -, fits⟩ := placed
      exact ⟨place.2, fits, production_plain kind place isPlace⟩

theorem Part.LicensedAll.faithful : ∀ {depth : Nat} {parts : List Part} {next : TokenKind},
    LicensedAll (Shape broken) depth parts next →
      (∀ part ∈ parts, ∃ symbol : Symbol, symbol.Fits part.mended ∧ symbol.isPlain = true) →
        ∀ leaf ∈ leavesOf parts, leaf.Faithful
  | _, [], _, _, _ => by simp [leavesOf]
  | _, part :: more, _, ⟨first, rest⟩, each => by
      intro leaf mem
      obtain mem | mem := List.mem_append.mp mem
      · obtain ⟨symbol, fits, plain⟩ := each part List.mem_cons_self
        exact Part.Licensed.faithful first fits plain leaf mem
      · exact Part.LicensedAll.faithful rest (fun part own => each part (List.mem_cons_of_mem _ own))
          leaf mem

end

variable {entry : Entry} {tokens : List Token} {root : Node} {parts : List Part}

theorem TreeOf.faithful (tree : TreeOf broken entry tokens root parts) :
    ∀ leaf ∈ leavesOf parts, leaf.Faithful := by
  refine (tree.licensed 0).faithful fun part mem => ?_
  obtain ⟨place, isPlace, -, fits⟩ := tree.sentence.placed (fun _ => rfl) part mem
  exact ⟨place.2, fits, entry.form_plain place isPlace⟩

theorem TreeOf.tokens_root (tree : TreeOf broken entry tokens root parts) :
    root.tokens = (leavesOf parts).flatMap Part.shown := by
  have eq := tree.tree
  cases eq
  rw [Node.tokens_ofChildren, tokensOf_toChildren]

end

end UmkaSyntax
