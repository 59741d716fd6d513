import UmkaSyntax.Proofs.Parsing.Growth
import UmkaSyntax.Proofs.Tree.Fields

/-!
The shape of broken trees. Whatever the source, the children of every node begin a sentence of its
production; what recovery leaves behind stands only between the items of a loop, at the end of a
node, or behind a fragment.
-/

namespace UmkaSyntax
open UmkaSyntax.Part

def Part.isWhole : Part → Bool
  | node _ _ whole _ => whole
  | _ => true

theorem Symbol.Fits.isWhole {symbol : Symbol} {part : Part} (fits : symbol.Fits part) :
    part.isWhole = true := by
  cases part with
  | node label kind whole parts =>
      cases symbol with
      | node => exact fits.2
      | token | keyword | builtin | literal | raw => exact fits.elim
  | token | keyword | literal => rfl

namespace Form

def tolerant : Form → Bool
  | attempt _ | whenBroken _ => true
  | seq first second | alt first second => first.tolerant || second.tolerant
  | many item => item.tolerant
  | list _ item before after => item.tolerant || before.tolerant || after.tolerant
  | nothing | empty | one _ _ | run _ | ending => false

theorem Sentence.isWhole {broken : Prop} {form : Form} (strict : form.tolerant = false)
    {parts : List Part} {next : TokenKind} (sentence : form.Sentence broken parts next) :
    ∀ part ∈ parts, part.isWhole = true := by
  induction form generalizing parts next with
  | nothing => exact sentence.elim
  | empty =>
      obtain rfl : parts = [] := sentence
      simp
  | one label symbols =>
      obtain ⟨part, rfl, -, symbol, -, fits⟩ := sentence
      simpa using fits.isWhole
  | run kinds =>
      intro part mem
      obtain ⟨t, rfl, -⟩ := sentence.1 part mem
      rfl
  | ending =>
      intro part mem
      obtain ⟨t, rfl, -⟩ := sentence.1 part mem
      rfl
  | seq first second ih₁ ih₂ =>
      simp only [tolerant, Bool.or_eq_false_iff] at strict
      obtain ⟨left, right, rfl, hl, hr⟩ := sentence
      intro part mem
      exact (List.mem_append.mp mem).elim (ih₁ strict.1 hl part) (ih₂ strict.2 hr part)
  | alt left right ih₁ ih₂ =>
      simp only [tolerant, Bool.or_eq_false_iff] at strict
      exact sentence.elim (ih₁ strict.1) (ih₂ strict.2)
  | many item ih =>
      change (item.Sentence broken).Many parts next at sentence
      induction sentence with
      | nil => simp
      | cons first _ rest =>
          intro part mem
          exact (List.mem_append.mp mem).elim (ih strict first part) (rest part)
  | list ends item before after ih₁ ih₂ ih₃ =>
      simp only [tolerant, Bool.or_eq_false_iff] at strict
      change Phrases.Listed _ _ _ _ parts next at sentence
      induction sentence with
      | stop => simp
      | last hi hg =>
          intro part mem
          exact (List.mem_append.mp mem).elim (ih₁ strict.1.1 hi part) (ih₂ strict.1.2 hg part)
      | more _ hi hg hs _ rest =>
          intro part mem
          simp only [List.mem_append, List.mem_cons] at mem
          obtain mem | mem | rfl | mem | mem := mem
          · exact ih₁ strict.1.1 hi part mem
          · exact ih₂ strict.1.2 hg part mem
          · rfl
          · exact ih₃ strict.2 hs part mem
          · exact rest part mem
  | attempt => cases strict
  | whenBroken => cases strict

end Form

def NodeKind.isLoop : NodeKind → Bool
  | .block | .imports | .constDecl | .varDecl | .typeDecl | .enumType | .structType
  | .interfaceType => true
  | _ => false

theorem production_tolerant (kind : NodeKind) : (production kind).tolerant = kind.isLoop := by
  cases kind <;> rfl

/-- Only loops have incomplete parts that are not the last. -/
def LacksAtEnd (_ : Nat) (kind : NodeKind) (_ : Bool) (parts : List Part) (_ : TokenKind) : Prop :=
  kind.isLoop = false → ∀ before part after, parts = before ++ part :: after →
    part.isWhole = false → after = []

theorem Shape.lacksAtEnd {broken : Prop} (depth : Nat) (kind : NodeKind) (whole : Bool)
    (parts : List Part) (next : TokenKind) (shape : Shape broken depth kind whole parts next) :
    LacksAtEnd depth kind whole parts next := by
  intro noLoop before part after split lacks
  rw [← production_tolerant] at noLoop
  obtain ⟨-, ⟨-, sentence⟩ | ⟨-, -, more, k, sentence | ⟨most, last, eq, sentence⟩⟩⟩ := shape
  · exact absurd (sentence.isWhole noLoop part (by simp [split])) (by simp [lacks])
  · exact absurd (sentence.isWhole noLoop part (by simp [split])) (by simp [lacks])
  · -- A part in front of the last one is as it stands in the sentence.
    have whole : ∀ p ∈ most, p.isWhole = true := fun p mem =>
      sentence.isWhole noLoop p (List.mem_append_left _ mem)
    cases after.eq_nil_or_concat with
    | inl none => exact none
    | inr some =>
        obtain ⟨init, own, rfl⟩ := some
        rw [List.concat_eq_append, ← List.cons_append, ← List.append_assoc] at split
        obtain ⟨rfl, -⟩ := List.append_inj' (eq.symm.trans split) rfl
        exact absurd (whole part (by simp)) (by simp [lacks])

def ErrorParts (parts : List Part) : Prop :=
  (∃ part, parts = [part] ∧ (Symbol.node .imports).Fits part.mended) ∨
    ∀ part ∈ parts, Symbol.raw.Fits part.mended

theorem ErrorParts.of_sentence {broken : Prop} {parts : List Part} {next : TokenKind}
    (sentence : (production .error).Sentence broken parts next) : ErrorParts parts := by
  obtain ⟨part, rfl, -, symbol, mem, fits⟩ | ⟨left, right, rfl, first, more⟩ := sentence
  · obtain rfl := List.mem_singleton.mp mem
    exact .inl ⟨part, rfl, Form.Symbol.Fits.mended fits⟩
  · have raw : ∀ {parts next}, (Form.one none [.raw]).Sentence broken parts next →
        ∀ part ∈ parts, Symbol.raw.Fits part.mended := by
      rintro _ _ ⟨part, rfl, -, symbol, mem, fits⟩
      obtain rfl := List.mem_singleton.mp mem
      simpa using Form.Symbol.Fits.mended fits
    have later : ∀ {parts next}, Phrases.Many ((Form.one none [.raw]).Sentence broken) parts next →
        ∀ part ∈ parts, Symbol.raw.Fits part.mended := by
      intro parts next many
      induction many with
      | nil => simp
      | cons own _ ih =>
          intro part mem
          exact (List.mem_append.mp mem).elim (raw own part) (ih part)
    exact .inr fun part mem => (List.mem_append.mp mem).elim (raw first part) (later more part)

theorem ErrorParts.of_append {parts more : List Part} (whole : ErrorParts (parts ++ more))
    (filled : parts ≠ []) : ErrorParts parts := by
  obtain ⟨part, eq, fits⟩ | raw := whole
  · obtain ⟨first, rest, rfl⟩ := List.exists_cons_of_ne_nil filled
    obtain ⟨rfl, none⟩ := List.cons.inj eq
    obtain ⟨rfl, -⟩ := List.append_eq_nil_iff.mp none
    exact .inl ⟨first, rfl, fits⟩
  · exact .inr fun part mem => raw part (List.mem_append_left _ mem)

theorem ErrorParts.of_mended {before : List Part} {last : Part}
    (whole : ErrorParts (before ++ [last.mended])) : ErrorParts (before ++ [last]) := by
  obtain ⟨part, eq, fits⟩ | raw := whole
  · cases before with
    | nil =>
        obtain ⟨rfl, -⟩ := List.cons.inj eq
        exact .inl ⟨last, rfl, by rwa [Form.mended_mended] at fits⟩
    | cons first more => simp at eq
  · refine .inr fun part mem => ?_
    obtain mem | mem := List.mem_append.mp mem
    · exact raw part (List.mem_append_left _ mem)
    · obtain rfl := List.mem_singleton.mp mem
      have fits := raw part.mended (by simp)
      rwa [Form.mended_mended] at fits

theorem ErrorParts.of_unfinished {broken : Prop} {parts : List Part} (filled : parts ≠ [])
    (unfinished : ((production .error).Sentence broken).Unfinished parts) : ErrorParts parts := by
  obtain ⟨more, next, sentence | ⟨before, last, rfl, sentence⟩⟩ := unfinished
  · exact (of_sentence sentence).of_append filled
  · have whole := of_sentence sentence
    rw [List.append_cons] at whole
    exact (whole.of_append (by simp)).of_mended

variable {broken : Prop} {entry : Entry} {n m : Node}

theorem Shown.error_children (shown : Shown broken entry n) (isError : n.kind = .error)
    (filled : n.children ≠ []) :
    (∃ c, n.children = [.node c] ∧ c.kind = .imports) ∨ ∀ c ∈ n.children, Symbol.raw.Stands c := by
  cases shown with
  | @node kind parts next depth shape licensed =>
      obtain rfl : kind = .error := isError
      have production : entry.production .error = UmkaSyntax.production .error := by
        cases entry <;> rfl
      rw [production] at shape
      have some : parts ≠ [] := by
        rintro rfl
        exact filled rfl
      have whole : ErrorParts parts := by
        obtain sentence | ⟨-, unfinished⟩ := shape
        · exact .of_sentence sentence
        · exact .of_unfinished some unfinished
      change (∃ c, toChildren parts = [.node c] ∧ _) ∨ ∀ c ∈ toChildren parts, _
      obtain ⟨part, rfl, fits⟩ | raw := whole
      · left
        have stands := Symbol.Fits.stands fits
        cases child : part.toChild with
        | token t =>
            rw [child] at stands
            exact stands.elim
        | node c =>
            rw [child] at stands
            exact ⟨c, by rw [toChildren, child, toChildren], stands⟩
      · right
        intro c mem
        rw [toChildren_eq_map] at mem
        obtain ⟨part, isPart, rfl⟩ := List.mem_map.mp mem
        exact Symbol.Fits.stands (raw part isPart)
  | @literal kind t splits =>
      obtain rfl : kind = .error := isError
      cases kinds : t.kind <;> simp [kinds, NodeKind.splits] at splits
  | moduleRef => cases isError

/-- Whether a node of the kind may have a child for the symbol. Errors stand in loops and at the
root, imports in programs and errors, and tokens outside of the grammar in errors alone. -/
def Entry.admits (entry : Entry) (kind : NodeKind) : Symbol → Bool
  | .node .error | .literal .error => kind.isLoop || kind == entry.rootKind
  | .node .imports | .literal .imports => kind == .program || kind == .error
  | .token .unknown | .raw => kind == .error
  | .token .endOfInput => kind == entry.rootKind
  | _ => true

theorem Entry.places_admitted (entry : Entry) (kind : NodeKind) :
    ∀ place ∈ entry.places true kind, entry.admits kind place.2 = true := by
  cases entry <;> cases kind <;> decide

theorem Shown.admits (shown : Shown broken entry n) {c : Child} (mem : c ∈ n.children) :
    ∃ symbol : Symbol, symbol.Stands c ∧ entry.admits n.kind symbol = true := by
  obtain ⟨i, child⟩ := List.mem_iff_getElem?.mp mem
  obtain ⟨symbol, isPlace, stands⟩ := shown.allows (b := true) (fun _ => rfl) child
  exact ⟨symbol, stands, entry.places_admitted _ _ isPlace⟩

theorem Shown.child_node (shown : Shown broken entry n) (mem : .node m ∈ n.children) :
    (m.kind = .error → n.kind.isLoop = true ∨ n.kind = entry.rootKind) ∧
      (m.kind = .imports → n.kind = .program ∨ n.kind = .error) := by
  obtain ⟨symbol, stands, admits⟩ := shown.admits mem
  cases symbol with
  | token | keyword | builtin => exact stands.elim
  | raw => rcases stands with kind | kind <;> simp [kind]
  | literal kind | node kind =>
      obtain rfl : m.kind = kind := stands
      constructor
      · intro isError
        rw [isError] at admits
        simpa [Entry.admits] using admits
      · intro isImport
        rw [isImport] at admits
        simpa [Entry.admits] using admits

theorem Shown.child_token (shown : Shown broken entry n) {t : Token} (mem : .token t ∈ n.children) :
    (t.kind = .unknown → n.kind = .error) ∧ (t.kind = .endOfInput → n.kind = entry.rootKind) := by
  obtain ⟨symbol, stands, admits⟩ := shown.admits mem
  cases symbol with
  | literal | node => exact stands.elim
  | keyword => simp [stands.1]
  | builtin => simp [stands.1]
  | raw => exact ⟨fun _ => by simpa [Entry.admits] using admits, fun atEnd => absurd atEnd stands.2⟩
  | token kind =>
      obtain rfl : t.kind = kind := stands
      constructor
      · intro unknown
        rw [unknown] at admits
        simpa [Entry.admits] using admits
      · intro atEnd
        rw [atEnd] at admits
        simpa [Entry.admits] using admits

/-- Every tree, broken or not, has the shape of the grammar. The children of each node are a sentence
of its production or begin one, where only the last may lack its end; in loops, at the top of a
program and in fragments items may lack their ends and errors stand between them. Each child has the
label of its place. An error node holds one import, or tokens outside of the grammar; such tokens are
nowhere else, and imports only there and at the top of a program. -/
theorem parse_shape (entry : Entry) (maxErrors : Nat) (source : String) :
    let root := (parse entry maxErrors source).root
    (∃ parts, TreeOf True entry (TokenStream.ofText source.toList).toList root parts ∧
      ∀ depth, LicensedAll LacksAtEnd depth parts .endOfInput) ∧
    ∀ n : Node, n.Within root → Shown True entry n ∧
      (∀ (i : Nat) (c : Child), n.children[i]? = some c →
        entry.Allows true n.kind (n.fieldAt? i) c) ∧
      (∀ label, ∀ c ∈ n.field label, entry.Allows true n.kind (some label) c) ∧
      (n.kind = .error → (∃ c, n.children = [.node c] ∧ c.kind = .imports) ∨
        ∀ c ∈ n.children, Symbol.raw.Stands c) ∧
      (∀ m, .node m ∈ n.children →
        (m.kind = .error → n.kind.isLoop = true ∨ n.kind = entry.rootKind) ∧
        (m.kind = .imports → n.kind = .program ∨ n.kind = .error)) ∧
      ∀ t, .token t ∈ n.children →
        (t.kind = .unknown → n.kind = .error) ∧ (t.kind = .endOfInput → n.kind = entry.rootKind) := by
  intro root
  obtain ⟨parts, tree, -⟩ := parseStream_ofText_tree True entry source.toList fun _ => trivial
  have full : root.Full := root_full entry _
  have shown : Shown True entry root := tree.shown
  refine ⟨⟨parts, tree, fun depth => (tree.licensed depth).imp Shape.lacksAtEnd⟩,
    fun n within => ?_⟩
  have own := shown.within within
  have filled : n.children ≠ [] := by
    cases full.within within
    simp [Node.ofChildren]
  exact ⟨own, fun i c child => own.allows (fun _ => rfl) child,
    fun label c mem => own.allows_field (fun _ => rfl) mem,
    fun isError => own.error_children isError filled,
    fun m mem => own.child_node mem, fun t mem => own.child_token mem⟩

end UmkaSyntax
