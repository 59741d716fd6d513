import UmkaSyntax.Json.Basic
import UmkaSyntax.Tree.Basic

namespace UmkaSyntax

namespace Json

/-- A natural number of at most 64 bits. -/
def unsigned? (json : Json) : Option Nat := json.nat?.filter (· < UInt64.size)

def record? (keys : List String) : Json → Option (List Json)
  | object members => keys.mapM (member? members)
  | array values => if values.length = keys.length then some values else none
  | _ => none

def tag? : Json → Option String
  | string tag => some tag
  | object [(tag, null)] => some tag
  | _ => none

def listOf? {α : Type} (decode : Json → Option α) (json : Json) : Option (List α) :=
  json.array?.bind (·.mapM decode)

end Json

def Span.toJson (span : Span) : Json :=
  .object [("start", .nat span.start), ("end", .nat span.stop)]

def Span.ofJson? (json : Json) : Option Span := do
  match ← json.record? ["start", "end"] with
  | [start, stop] => return ⟨← start.unsigned?, ← stop.unsigned?⟩
  | _ => none

def TokenKind.toJson (kind : TokenKind) : Json :=
  match kind.terminated? with
  | none => .string kind.tag
  | some closed => .object [(kind.tag, .object [("terminated", .bool closed)])]

def terminatedOfJson? (json : Json) : Option Bool := (json.get? "terminated").bind Json.bool?

def TokenKind.ofJson? : Json → Option TokenKind
  | .object [("String", body)] => (terminatedOfJson? body).map .string
  | .object [("Char", body)] => (terminatedOfJson? body).map .character
  | json => json.tag?.bind TokenKind.ofPlainTag?

def Trivia.toJson (trivia : Trivia) : Json :=
  .object [("kind", .string trivia.kind.tag), ("span", trivia.span.toJson),
    ("text", .string trivia.text)]

def Trivia.ofJson? (json : Json) : Option Trivia := do
  match ← json.record? ["kind", "span", "text"] with
  | [kind, span, text] =>
      return ⟨← kind.tag?.bind TriviaKind.ofTag?, ← Span.ofJson? span, ← text.string?⟩
  | _ => none

def Token.toJson (t : Token) : Json :=
  .object [("kind", t.kind.toJson), ("span", t.span.toJson), ("text", .string t.text),
    ("leading", .array (t.leading.map Trivia.toJson)),
    ("trailing", .array (t.trailing.map Trivia.toJson))]

def Token.ofJson? (json : Json) : Option Token := do
  match ← json.record? ["kind", "span", "text", "leading", "trailing"] with
  | [kind, span, text, leading, trailing] =>
      return ⟨← TokenKind.ofJson? kind, ← Span.ofJson? span, ← text.string?,
        ← leading.listOf? Trivia.ofJson?, ← trailing.listOf? Trivia.ofJson?⟩
  | _ => none

def Field.toJson (field : Field) : Json :=
  .object [("name", .string field.name.tag), ("children", .array (field.children.map .nat))]

def Field.ofJson? (json : Json) : Option Field := do
  match ← json.record? ["name", "children"] with
  | [name, children] =>
      return ⟨← name.tag?.bind FieldName.ofTag?, ← children.listOf? Json.unsigned?⟩
  | _ => none

mutual

def Node.toJson : Node → Json
  | ⟨kind, span, children, fields⟩ =>
      .object [("kind", .string kind.tag), ("span", span.toJson),
        ("children", .array (Child.listToJson children)),
        ("fields", .array (fields.map Field.toJson))]

def Child.toJson : Child → Json
  | .token t => .object [("Token", t.toJson)]
  | .node n => .object [("Node", n.toJson)]

def Child.listToJson : List Child → List Json
  | [] => []
  | child :: more => child.toJson :: Child.listToJson more

end

def Node.ofParts? (kind span : Json) (children : Option (List Child)) (fields : Json) :
    Option Node := do
  return ⟨← kind.tag?.bind NodeKind.ofTag?, ← Span.ofJson? span, ← children,
    ← fields.listOf? Field.ofJson?⟩

mutual

def Node.ofJson? : Json → Option Node
  | .object members => do
      match ← (Json.object members).record? ["kind", "span", "fields"] with
      | [kind, span, fields] => Node.ofParts? kind span (Child.memberOfJson? members).join fields
      | _ => none
  | .array [kind, span, children, fields] =>
      Node.ofParts? kind span (Child.arrayOfJson? children) fields
  | _ => none

def Child.memberOfJson? : List (String × Json) → Option (Option (List Child))
  | [] => none
  | (key, value) :: more =>
      match Child.memberOfJson? more with
      | some later => some later
      | none => if key == "children" then some (Child.arrayOfJson? value) else none

def Child.arrayOfJson? : Json → Option (List Child)
  | .array items => Child.listOfJson? items
  | _ => none

def Child.listOfJson? : List Json → Option (List Child)
  | [] => some []
  | item :: items => do return (← Child.ofJson? item) :: (← Child.listOfJson? items)

def Child.ofJson? : Json → Option Child
  | .object [("Token", body)] => (Token.ofJson? body).map .token
  | .object [("Node", body)] => (Node.ofJson? body).map .node
  | _ => none

end

end UmkaSyntax
