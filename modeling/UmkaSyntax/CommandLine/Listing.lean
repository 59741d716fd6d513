import UmkaSyntax.CommandLine.Output
import UmkaSyntax.Text.Basic
import UmkaSyntax.Text.Quoted
import UmkaSyntax.Tree.Basic

namespace UmkaSyntax.CommandLine

def tokenRow (t : Token) : StyledText :=
  .line (.plain (padLeft 4 (toString t.span.start) ++ ":" ++ padRight 4 (toString t.span.stop) ++
    " " ++ padRight 14 t.kind.listing ++ " " ++ Quoted.write t.text))

def fieldTitle (field : Option FieldName) : StyledText :=
  .colour .cyan ((field.map (·.printed ++ ": ")).getD "")

def indentation (depth : Nat) : StyledText := .plain (spaces (2 * depth))

def nodeRow (depth : Nat) (field : Option FieldName) (kind : NodeKind) (span : Span) : StyledText :=
  .line (indentation depth ++ fieldTitle field ++ .bold kind.grammarName ++ .plain " " ++
    .dimmed ("[" ++ toString span.start ++ ".." ++ toString span.stop ++ ")"))

def leafRow (depth : Nat) (field : Option FieldName) (t : Token) : StyledText :=
  .line (indentation depth ++ fieldTitle field ++ .colour .green t.kind.listing ++
    .plain (" " ++ Quoted.write t.text))

mutual

def outlineNode (depth : Nat) (field : Option FieldName) : Node → StyledText
  | ⟨kind, span, children, fields⟩ =>
      nodeRow depth field kind span ++ outlineChildren (depth + 1) fields 0 children

def outlineChildren (depth : Nat) (fields : List Field) : Nat → List Child → StyledText
  | _, [] => []
  | index, child :: more =>
      outlineChild depth (Field.nameAt? fields index) child ++
        outlineChildren depth fields (index + 1) more

def outlineChild (depth : Nat) (field : Option FieldName) : Child → StyledText
  | .node n => outlineNode depth field n
  | .token t => leafRow depth field t

end

def outline (n : Node) : StyledText := outlineNode 0 none n

end UmkaSyntax.CommandLine
