import UmkaSyntax.Proofs.Json.Reading
import UmkaSyntax.Tree.Encoding

namespace UmkaSyntax

def Span.Fits (span : Span) : Prop := span.start < UInt64.size ∧ span.stop < UInt64.size

instance : DecidablePred Span.Fits := fun _ => inferInstanceAs (Decidable (_ ∧ _))

structure Token.Fits (t : Token) : Prop where
  span : t.span.Fits
  leading : ∀ trivia ∈ t.leading, trivia.span.Fits
  trailing : ∀ trivia ∈ t.trailing, trivia.span.Fits

def Field.Fits (field : Field) : Prop := ∀ index ∈ field.children, index < UInt64.size

instance : DecidablePred Field.Fits := fun field =>
  inferInstanceAs (Decidable (∀ index ∈ field.children, index < UInt64.size))

mutual

def Node.Fits : Node → Prop
  | ⟨_, span, children, fields⟩ =>
      span.Fits ∧ Child.AllFit children ∧ ∀ field ∈ fields, field.Fits

def Child.Fits : Child → Prop
  | .token t => t.Fits
  | .node n => n.Fits

def Child.AllFit : List Child → Prop
  | [] => True
  | child :: more => child.Fits ∧ Child.AllFit more

end

theorem TriviaKind.ofTag?_tag (kind : TriviaKind) : ofTag? kind.tag = some kind := by
  cases kind <;> rfl

theorem NodeKind.ofTag?_tag (kind : NodeKind) : ofTag? kind.tag = some kind := by
  cases kind <;> rfl

theorem FieldName.ofTag?_tag (label : FieldName) : ofTag? label.tag = some label := by
  cases label <;> rfl

theorem TokenKind.ofJson?_toJson (kind : TokenKind) : ofJson? kind.toJson = some kind := by
  cases kind with
  | punct p => cases p <;> rfl
  | _ => rfl

namespace Json

theorem unsigned?_nat {n : Nat} (fits : n < UInt64.size) : (nat n).unsigned? = some n := by
  simp [unsigned?, nat?, fits]

theorem listOf?_map {α : Type} {encode : α → Json} {decode : Json → Option α} {items : List α}
    (inverse : ∀ a ∈ items, decode (encode a) = some a) :
    (array (items.map encode)).listOf? decode = some items := by
  change (items.map encode).mapM decode = some items
  induction items with
  | nil => rfl
  | cons a items ih =>
      have first := inverse a List.mem_cons_self
      have later := ih fun b mem => inverse b (List.mem_cons_of_mem a mem)
      rw [List.map_cons, List.mapM_cons, first, later]
      rfl

end Json

theorem Span.ofJson?_toJson {span : Span} (fits : span.Fits) : ofJson? span.toJson = some span := by
  have start := Json.unsigned?_nat fits.1
  have stop := Json.unsigned?_nat fits.2
  simp [ofJson?, toJson, Json.record?, Json.member?, start, stop]

theorem Trivia.ofJson?_toJson {trivia : Trivia} (fits : trivia.span.Fits) :
    ofJson? trivia.toJson = some trivia := by
  have kind := TriviaKind.ofTag?_tag trivia.kind
  have span := Span.ofJson?_toJson fits
  simp [ofJson?, toJson, Json.record?, Json.member?, Json.tag?, Json.string?, kind, span]

theorem Token.ofJson?_toJson {t : Token} (fits : t.Fits) : ofJson? t.toJson = some t := by
  have kind := TokenKind.ofJson?_toJson t.kind
  have span := Span.ofJson?_toJson fits.span
  have leading := Json.listOf?_map fun trivia mem => Trivia.ofJson?_toJson (fits.leading trivia mem)
  have trailing := Json.listOf?_map fun trivia mem => Trivia.ofJson?_toJson (fits.trailing trivia mem)
  simp [ofJson?, toJson, Json.record?, Json.member?, Json.string?, kind, span, leading, trailing]

theorem Field.ofJson?_toJson {field : Field} (fits : field.Fits) :
    ofJson? field.toJson = some field := by
  have label := FieldName.ofTag?_tag field.name
  have children := Json.listOf?_map fun index mem => Json.unsigned?_nat (fits index mem)
  simp [ofJson?, toJson, Json.record?, Json.member?, Json.tag?, label, children]

theorem Node.ofParts?_toJson (kind : NodeKind) {span : Span} (children : List Child)
    {fields : List Field} (spanFits : span.Fits) (fieldsFit : ∀ field ∈ fields, field.Fits) :
    ofParts? (.string kind.tag) span.toJson (some children) (.array (fields.map Field.toJson)) =
      some ⟨kind, span, children, fields⟩ := by
  have tag := NodeKind.ofTag?_tag kind
  have span := Span.ofJson?_toJson spanFits
  have fields := Json.listOf?_map fun field mem => Field.ofJson?_toJson (fieldsFit field mem)
  simp [ofParts?, Json.tag?, tag, span, fields]

mutual

theorem Node.ofJson?_toJson : ∀ {n : Node}, n.Fits → Node.ofJson? n.toJson = some n
  | ⟨kind, span, children, fields⟩, fits => by
      rw [Node.Fits] at fits
      obtain ⟨spanFits, childrenFit, fieldsFit⟩ := fits
      have inside := Child.listOfJson?_toJson childrenFit
      have parts := Node.ofParts?_toJson kind children spanFits fieldsFit
      simp [Node.toJson, Node.ofJson?, Json.record?, Json.member?, Child.memberOfJson?,
        Child.arrayOfJson?, inside, parts]

theorem Child.ofJson?_toJson : ∀ {c : Child}, c.Fits → Child.ofJson? c.toJson = some c
  | .token t, fits => by
      rw [Child.Fits] at fits
      rw [Child.toJson, Child.ofJson?, Token.ofJson?_toJson fits]
      rfl
  | .node n, fits => by
      rw [Child.Fits] at fits
      rw [Child.toJson, Child.ofJson?, Node.ofJson?_toJson fits]
      rfl

theorem Child.listOfJson?_toJson : ∀ {children : List Child},
    Child.AllFit children → Child.listOfJson? (Child.listToJson children) = some children
  | [], _ => rfl
  | child :: more, fits => by
      rw [Child.AllFit] at fits
      rw [Child.listToJson, Child.listOfJson?, Child.ofJson?_toJson fits.1,
        Child.listOfJson?_toJson fits.2]
      rfl

end

namespace Json

theorem naturalItems_iff {items : List Json} :
    NaturalItems items ↔ ∀ item ∈ items, Natural item := by
  induction items with
  | nil => simp [NaturalItems]
  | cons item items ih => simp [NaturalItems, ih]

theorem naturalMembers_iff {members : List (String × Json)} :
    NaturalMembers members ↔ ∀ member ∈ members, Natural member.2 := by
  induction members with
  | nil => simp [NaturalMembers]
  | cons member members ih => simp [NaturalMembers, ih]

theorem naturalItems_map {α : Type} {encode : α → Json} (each : ∀ a, (encode a).Natural)
    (items : List α) : NaturalItems (items.map encode) := by
  rw [naturalItems_iff]
  simp [each]

end Json

theorem Span.natural_toJson (span : Span) : span.toJson.Natural := by
  simp [toJson, Json.Natural, Json.NaturalMembers]

theorem Trivia.natural_toJson (trivia : Trivia) : trivia.toJson.Natural := by
  simp [toJson, Json.Natural, Json.NaturalMembers, Span.natural_toJson]

theorem TokenKind.natural_toJson (kind : TokenKind) : kind.toJson.Natural := by
  unfold toJson
  split <;> simp [Json.Natural, Json.NaturalMembers]

theorem Token.natural_toJson (t : Token) : t.toJson.Natural := by
  simp [toJson, Json.Natural, Json.NaturalMembers, Span.natural_toJson, TokenKind.natural_toJson,
    Json.naturalItems_map Trivia.natural_toJson]

theorem Field.natural_toJson (field : Field) : field.toJson.Natural := by
  have index : ∀ n, (Json.nat n).Natural := fun _ => by simp [Json.Natural]
  have indices := Json.naturalItems_map index field.children
  simp [toJson, Json.Natural, Json.NaturalMembers, indices]

mutual

theorem Node.natural_toJson : ∀ n : Node, n.toJson.Natural
  | ⟨kind, span, children, fields⟩ => by
      have inside := Child.natural_listToJson children
      simp [Node.toJson, Json.Natural, Json.NaturalMembers, Span.natural_toJson, inside,
        Json.naturalItems_map Field.natural_toJson]

theorem Child.natural_toJson : ∀ c : Child, c.toJson.Natural
  | .token t => by simp [Child.toJson, Json.Natural, Json.NaturalMembers, t.natural_toJson]
  | .node n => by simp [Child.toJson, Json.Natural, Json.NaturalMembers, n.natural_toJson]

theorem Child.natural_listToJson : ∀ children : List Child,
    Json.NaturalItems (Child.listToJson children)
  | [] => by simp [Child.listToJson, Json.NaturalItems]
  | child :: more => by
      simp [Child.listToJson, Json.NaturalItems, child.natural_toJson,
        Child.natural_listToJson more]

end

end UmkaSyntax
