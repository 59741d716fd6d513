import UmkaSyntax.Proofs.Error.Order
import UmkaSyntax.Proofs.Tree.Fields
import UmkaSyntax.Proofs.Tree.Preorder

namespace UmkaSyntax
open UmkaSyntax.Part

/-- No parse of the source, whatever its limit, has an error that is not lexical. -/
def Clean (entry : Entry) (source : String) : Prop :=
  ∀ limit, ∀ e ∈ (parse entry limit source).errors, e.kind ≠ .syntactic ∧ e.kind ≠ .unexpectedEnd

theorem Clean.not_faulty {entry : Entry} {source : String} (clean : Clean entry source) :
    ¬(parseStream entry (TokenStream.ofText source.toList)).Faulty := by
  rintro ⟨e, mem⟩
  obtain ⟨bound, unlimited⟩ := exists_unlimited entry source
  have found : .syntactic e ∈ (parse entry bound source).errors := by
    rw [unlimited bound (Nat.le_refl _), unlimitedErrors, ParseError.mem_sortByStart]
    exact List.mem_append_right _ mem
  obtain ⟨plain, atEnd⟩ := clean bound _ found
  change e.kind ≠ _ at plain
  change e.kind ≠ _ at atEnd
  unfold SyntaxError.kind at plain atEnd
  split at plain <;> grind

variable {entry : Entry} {n m : Node}

theorem Entry.places_isError (entry : Entry) (kind : NodeKind) :
    ∀ place ∈ entry.places false kind, place.2.isError = false := by
  cases entry <;> cases kind <;> decide

theorem Shown.child_kind_ne (shown : Shown False entry n) (mem : .node m ∈ n.children) :
    m.kind ≠ .error := by
  obtain ⟨i, child⟩ := List.mem_iff_getElem?.mp mem
  obtain ⟨symbol, isPlace, stands⟩ := shown.allows (b := false) False.elim child
  exact stands.kind_ne (entry.places_isError _ _ isPlace)

theorem Shown.within_kind_ne (shown : Shown False entry n) (other : n.kind ≠ .error)
    (within : m.Within n) : m.kind ≠ .error := by
  induction within with
  | self => exact other
  | child mem _ ih => exact ih (shown.child mem) (shown.child_kind_ne mem)

/-- The tree of a clean parse is a derivation of the grammar over the tokens of the source. It has no
error node; the children of every node form a sentence of its production, each under the label of
its place; and no field that the production demands is missing. -/
theorem clean_parse_derives (entry : Entry) (source : String) (clean : Clean entry source)
    (maxErrors : Nat) :
    let root := (parse entry maxErrors source).root
    root.containsError = false ∧
      (∃ parts, TreeOf False entry (TokenStream.ofText source.toList).toList root parts) ∧
      ∀ n : Node, n.Within root → Shown False entry n ∧
        (∀ (i : Nat) (c : Child), n.children[i]? = some c →
          entry.Allows false n.kind (n.fieldAt? i) c) ∧
        ∀ wanted ∈ n.kind.mandatory, n.field wanted ≠ [] ∧
          ∀ c ∈ n.field wanted, entry.Allows false n.kind (some wanted) c := by
  intro root
  obtain ⟨parts, tree, -⟩ := parseStream_ofText_tree False entry source.toList clean.not_faulty
  have shown : Shown False entry root := tree.shown
  have other : root.kind ≠ .error := by
    rw [show root.kind = _ from tree.kind_eq]
    cases entry <;> decide
  refine ⟨?_, ⟨parts, tree⟩, fun n within => ?_⟩
  · refine List.any_eq_false.mpr fun n mem => ?_
    simpa using shown.within_kind_ne other (Node.mem_preorder_iff.mp mem)
  · have own := shown.within within
    exact ⟨own, fun i c child => own.allows False.elim child, fun wanted mandatory =>
      ⟨own.mandatory mandatory, fun c mem => own.allows_field False.elim mem⟩⟩

theorem Clean.of_unlimitedErrors {source : String} (none : unlimitedErrors entry source = []) :
    Clean entry source := by
  intro limit e mem
  have all : e ∈ unlimitedErrors entry source := List.mem_of_mem_take mem
  rw [none] at all
  cases all

def methodProgram : String :=
  "import \"std.um\"\nconst (a* = 1; b = 2)\n" ++
    "fn (p: ^T) get*(x: int = 3): int \x7b\n  q(x, \x7b1: \"s\"\x7d)\n\x7d\n"

theorem methodProgram_derives :
    Clean .program methodProgram ∧
      let root := (parse .program defaultMaxErrors methodProgram).root
      root.containsError = false ∧
        (∃ parts, TreeOf False .program (TokenStream.ofText methodProgram.toList).toList root parts) ∧
        ∀ n : Node, n.Within root → Shown False .program n ∧
          (∀ (i : Nat) (c : Child), n.children[i]? = some c →
            Entry.program.Allows false n.kind (n.fieldAt? i) c) ∧
          ∀ wanted ∈ n.kind.mandatory, n.field wanted ≠ [] ∧
            ∀ c ∈ n.field wanted, Entry.program.Allows false n.kind (some wanted) c := by
  have clean : Clean .program methodProgram := .of_unlimitedErrors (by decide +kernel)
  exact ⟨clean, clean_parse_derives .program methodProgram clean defaultMaxErrors⟩

end UmkaSyntax
