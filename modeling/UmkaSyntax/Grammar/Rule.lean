import UmkaSyntax.Error.Syntax
import UmkaSyntax.Literal.Segment
import UmkaSyntax.Token.Vocabulary
import UmkaSyntax.Tree.Kind

/-!
The language in which the grammar is written. A rule takes tokens from the front of the input into
the open node, opens and closes nodes, and decides by the next few tokens which way to go; it never
goes back.
-/

namespace UmkaSyntax

/-- A test of the tokens ahead. -/
inductive Look
  | always
  | kind (k : TokenKind)
  | keyword (k : Keyword)
  | builtin (family : BuiltinFamily)
  | next (look : Look)
  | both (a b : Look)
  | either (a b : Look)
  | not (look : Look)

namespace Look

def holds : Look → List Token → Bool
  | always, _ => true
  | kind k, tokens => (tokens.head?.map (·.kind)).getD .endOfInput == k
  | keyword k, tokens =>
      tokens.head?.any fun t => t.kind == .name && Keyword.ofSpelling? t.text == some k
  | builtin family, tokens =>
      tokens.head?.any fun t => t.kind == .name && BuiltinFamily.ofName? t.text == some family
  | next look, tokens => look.holds tokens.tail
  | both a b, tokens => a.holds tokens && b.holds tokens
  | either a b, tokens => a.holds tokens || b.holds tokens
  | not look, tokens => !look.holds tokens

def anyOf : List Look → Look
  | [] => not always
  | [look] => look
  | look :: more => either look (anyOf more)

def punct (p : Punct) : Look := kind (.punct p)

def name : Look := kind .name

def newline : Look := kind .newline

def atEnd : Look := kind .endOfInput

def terminator : Look := either (kind .semicolon) newline

def string : Look := either (kind (.string true)) (kind (.string false))

def character : Look := either (kind (.character true)) (kind (.character false))

def closing : Look := anyOf [punct .rightBrace, punct .rightParen, atEnd]

end Look

inductive SyncSet
  | topLevel | block | group
  deriving DecidableEq

/-- The tokens at which skipping stops. -/
def SyncSet.look (sync : SyncSet) : Look :=
  .either .terminator <| .either .atEnd <| match sync with
    | .topLevel => Look.anyOf (Keyword.declarations.map .keyword)
    | .block => Look.anyOf
        [.punct .rightBrace, .keyword .const, .keyword .var, .keyword .type, .keyword .fn]
    | .group => .punct .rightParen

/-- The parts of the grammar that contain each other. -/
inductive Category
  | type | expression | block
  deriving DecidableEq

inductive Rule
  | done
  | seq (first second : Rule)
  | branch (look : Look) (yes no : Rule)
  | fail (issue : SyntaxIssue)
  | report (issue : SyntaxIssue)
  | announce
  | take
  | takeKeyword
  | takeWhile (look : Look)
  | literal (kind : NodeKind) (flavor : Flavor)
  | label (field : FieldName)
  | labelNext (field : FieldName)
  | retag (kind : NodeKind)
  | node (kind : NodeKind) (body : Rule)
  | wrapLast (kind : NodeKind) (body : Rule)
  | nested (category : Category)
  /-- Items with commas between them, as long as the test holds. The two gaps go before and after
  each comma. -/
  | separated (go : Look) (item before after : Rule)
  /-- A rule after whose failure the parse resumes. -/
  | recovering (sync : SyncSet) (item : Rule)
  /-- Items up to a token that stops them, with terminators between them. Each recovers on its
  own. -/
  | items (stop : Look) (sync : SyncSet) (item : Rule)

namespace Rule

def inOrder : List Rule → Rule
  | [] => done
  | [rule] => rule
  | rule :: more => seq rule (inOrder more)

def choose (cases : List (Look × Rule)) (otherwise : Rule) : Rule :=
  cases.foldr (fun (look, rule) rest => branch look rule rest) otherwise

def optional (look : Look) (rule : Rule) : Rule := branch look rule done

def accept (p : Punct) : Rule := optional (.punct p) take

def expect (p : Punct) : Rule := branch (.punct p) take (fail (.expected (.punct p)))

def name : Rule := branch .name take (fail (.expected .name))

def terminators : Rule := takeWhile .terminator

def newlines : Rule := takeWhile .newline

/-- The end of an item: a run of terminators, or a token that closes what is around it. -/
def terminator : Rule :=
  branch .terminator terminators (branch .closing done (fail (.expected .terminator)))

def type : Rule := nested .type

def expression : Rule := nested .expression

def block : Rule := nested .block

def commaList (item : Rule) : Rule := separated .always item done done

end Rule

end UmkaSyntax
