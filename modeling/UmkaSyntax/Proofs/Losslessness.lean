import UmkaSyntax.Proofs.Parsing.Growth
import UmkaSyntax.Proofs.Source.Place

namespace UmkaSyntax

theorem Node.toList_sourceText (n : Node) :
    n.sourceText.toList = spelled (n.tokens.flatMap Token.stretches) := by
  have texts : ∀ tokens : List Token, (String.join (tokens.map Token.sourceText)).toList =
      spelled (tokens.flatMap Token.stretches) := by
    intro tokens
    induction tokens with
    | nil => simp
    | cons t tokens ih =>
        rw [List.map_cons, String.join_cons, String.toList_append, ih, Token.toList_sourceText,
          List.flatMap_cons, spelled_append]
  exact texts n.tokens

theorem Node.Within.reads {m root : Node} (within : m.Within root) (full : root.Full) {stop : Nat}
    (laid : Laid 0 (root.tokens.flatMap Token.stretches) stop) :
    ∃ left right, spelled (root.tokens.flatMap Token.stretches) = left ++ m.text.toList ++ right ∧
      m.span = ⟨byteLength left, byteLength left + byteLength m.text.toList⟩ := by
  obtain ⟨before, after, tokens⟩ := within.tokens
  obtain ⟨nonempty, lies⟩ := (full.within within).placed
  obtain ⟨t, more, eq⟩ := List.exists_cons_of_ne_nil nonempty
  replace eq : m.tokens = t :: more := eq
  have span : m.span = hull (t :: more) := by
    have parts := laid
    rw [tokens, List.flatMap_append, List.flatMap_append] at parts
    exact eq ▸ (lies _ _ parts.part).1
  have text : m.text = t.text ++ textAfter t more := by simp [Node.text, eq]
  rw [span, text, tokens, eq]
  rw [tokens, eq] at laid
  exact hull_reads laid

/-- The text of the root is the source. Every node begins and ends between two characters of the
source, and its text is what the source has there. -/
theorem parse_lossless (entry : Entry) (maxErrors : Nat) (source : String) :
    (parse entry maxErrors source).root.sourceText = source ∧
      ∀ n : Node, n.Within (parse entry maxErrors source).root →
        n.span.start ≤ n.span.stop ∧ n.span.stop ≤ source.utf8ByteSize ∧
        String.Pos.Raw.IsValid source ⟨n.span.start⟩ ∧
        String.Pos.Raw.IsValid source ⟨n.span.stop⟩ ∧
        slice? source.toList n.span = some n.text.toList := by
  let stream := TokenStream.ofText source.toList
  have renders : Renders stream.toList (parse entry maxErrors source).root.tokens :=
    root_renders entry stream
  have laid := renders.laid (TokenStream.ofText_laid source.toList)
  have spells := renders.spelled_eq.trans (TokenStream.spelled_ofText source.toList)
  refine ⟨String.toList_inj.mp ((Node.toList_sourceText _).trans spells), fun n within => ?_⟩
  obtain ⟨left, right, whole, span⟩ := within.reads (root_full entry stream) laid
  rw [spells] at whole
  refine ⟨by simp [span], ?_, ?_, ?_, ?_⟩
  · rw [span, utf8ByteSize_eq_byteLength, whole, byteLength_append, byteLength_append]
    exact Nat.le_add_right _ _
  · rw [span]
    exact isValid_byteLength left (n.text.toList ++ right) (by rw [whole, List.append_assoc])
  · rw [span, ← byteLength_append]
    exact isValid_byteLength (left ++ n.text.toList) right whole
  · rw [span, whole]
    exact slice?_append left n.text.toList right

end UmkaSyntax
