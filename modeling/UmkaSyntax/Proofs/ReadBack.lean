import UmkaSyntax.Diagnostic.Report
import UmkaSyntax.Proofs.Tree.Encoding

namespace UmkaSyntax

theorem Json.naturalMembers_append {left right : List (String × Json)} :
    NaturalMembers (left ++ right) ↔ NaturalMembers left ∧ NaturalMembers right := by
  simp only [naturalMembers_iff, List.forall_mem_append]

theorem Json.naturalMembers_optional {α : Type} {encode : α → Json}
    (each : ∀ a, (encode a).Natural) (key : String) (value : Option α) :
    NaturalMembers (Json.optional key encode value) := by
  rw [naturalMembers_iff]
  cases value <;> simp [Json.optional, each]

theorem Misspelling.natural_toJson (m : Misspelling) : m.toJson.Natural := by
  simp [toJson, Json.Natural, Json.NaturalMembers, Span.natural_toJson]

theorem LocatedDiagnostic.natural_toJson (located : LocatedDiagnostic) : located.toJson.Natural := by
  have string : ∀ s, (Json.string s).Natural := fun _ => by simp [Json.Natural]
  simp [toJson, Diagnostic.members, place, Json.Natural, Json.NaturalMembers,
    Json.naturalMembers_append, Json.naturalMembers_optional string,
    Json.naturalMembers_optional Misspelling.natural_toJson, Span.natural_toJson]

theorem Report.natural_toJson (report : Report) : report.toJson.Natural := by
  simp [toJson, Json.Natural, Json.NaturalMembers,
    Json.naturalItems_map LocatedDiagnostic.natural_toJson,
    Json.naturalMembers_optional Node.natural_toJson]

def Report.readTree? (text : String) : Option Node := do
  let report ← Json.read? text.toList
  Node.ofJson? (← report.get? "tree")

theorem Report.get?_tree {report : Report} {n : Node} (tree : report.tree = some n) :
    report.toJson.get? "tree" = some n.toJson := by
  simp [toJson, Json.get?, tree, Json.optional, Json.member?]

theorem Report.readTree?_pretty {report : Report} {n : Node} (tree : report.tree = some n)
    (fits : n.Fits) : readTree? report.toJson.pretty = some n := by
  rw [readTree?, Json.pretty, String.toList_ofList, Json.read?_write 0 report.natural_toJson]
  simp only [Option.bind_eq_bind, Option.bind_some, get?_tree tree, Node.ofJson?_toJson fits]

theorem Node.read?_write {n : Node} (fits : n.Fits) (indent : Nat) :
    (Json.read? (n.toJson.write indent [])).bind Node.ofJson? = some n := by
  rw [Json.read?_write indent n.natural_toJson, Option.bind_some, Node.ofJson?_toJson fits]

/-- A tree is read back from its text, wherever that stands and in every report, and no other tree
has this text. -/
theorem Node.readsBack {n : Node} (fits : n.Fits) :
    (∀ indent, (Json.read? (n.toJson.write indent [])).bind Node.ofJson? = some n) ∧
      (∀ report : Report, report.tree = some n →
        Report.readTree? report.toJson.pretty = some n) ∧
      ∀ (m : Node) (indent : Nat), m.Fits →
        m.toJson.write indent [] = n.toJson.write indent [] → m = n := by
  refine ⟨read?_write fits, fun report tree => Report.readTree?_pretty tree fits,
    fun m indent other same => ?_⟩
  have read := read?_write other indent
  rw [same, read?_write fits indent] at read
  exact (Option.some.inj read).symm

/-- A literal whose text has quotes, a control character and a letter outside of ASCII, at the end
of the largest source. -/
def largestTree : Node :=
  ⟨.stringLiteral, ⟨18446744073709551610, 18446744073709551615⟩,
    [.token ⟨.string true, ⟨18446744073709551610, 18446744073709551615⟩, "\"\\\x01é\"", [],
      [⟨.whitespace, ⟨0, 1⟩, "\t"⟩]⟩, .node ⟨.error, ⟨7, 3⟩, [], []⟩],
    [⟨.value, [1, 18446744073709551615]⟩, ⟨.value, []⟩]⟩

theorem largestTree_readsBack :
    largestTree.Fits ∧
      (Json.read? (largestTree.toJson.write 1 [])).bind Node.ofJson? = some largestTree := by
  have span : Span.Fits ⟨18446744073709551610, 18446744073709551615⟩ := by decide
  have token : Token.Fits ⟨.string true, ⟨18446744073709551610, 18446744073709551615⟩,
      "\"\\\x01é\"", [], [⟨.whitespace, ⟨0, 1⟩, "\t"⟩]⟩ :=
    ⟨span, by decide, by decide⟩
  have fits : largestTree.Fits := by
    simp only [largestTree, Node.Fits, Child.AllFit, Child.Fits]
    exact ⟨span, ⟨token, ⟨by decide, trivial, by decide⟩, trivial⟩, by decide⟩
  exact ⟨fits, (Node.readsBack fits).1 1⟩

end UmkaSyntax
