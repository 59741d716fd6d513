import UmkaSyntax.Tree.Basic

namespace UmkaSyntax

def TokenKind.leafName? : TokenKind → Option String
  | .name => some "ident"
  | .escape => some "esc_seq"
  | .format => some "fmt_seq"
  | _ => none

def fieldLabel (fields : List Field) (index : Nat) : List Char :=
  match Field.nameAt? fields index with
  | some field => field.printed.toList ++ [':', ' ']
  | none => []

mutual

/-- The S-expression of a node in front of the given text. -/
def Node.writeSExpression : Node → List Char → List Char
  | ⟨kind, _, children, fields⟩, after =>
      '(' :: kind.grammarName.toList ++ Child.writeSExpressions fields 0 children (')' :: after)

def Child.writeSExpression (label : List Char) : Child → List Char → List Char
  | .node n, after => ' ' :: label ++ n.writeSExpression after
  | .token t, after => match t.kind.leafName? with
      | some leaf => ' ' :: label ++ '(' :: leaf.toList ++ ')' :: after
      | none => after

def Child.writeSExpressions (fields : List Field) : Nat → List Child → List Char → List Char
  | _, [], after => after
  | index, child :: more, after =>
      child.writeSExpression (fieldLabel fields index)
        (Child.writeSExpressions fields (index + 1) more after)

end

def Node.sExpression (n : Node) : String := String.ofList (n.writeSExpression [])

end UmkaSyntax
