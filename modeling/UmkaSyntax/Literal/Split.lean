import UmkaSyntax.Error.Lexical
import UmkaSyntax.Literal.Segment
import UmkaSyntax.Source.Basic
import UmkaSyntax.Token.Basic

namespace UmkaSyntax

inductive LiteralPiece
  | token (t : Token)
  | module (name suffix : Token)
  deriving DecidableEq

namespace LiteralPiece

def leadBy (trivia : List Trivia) : LiteralPiece → LiteralPiece
  | token t => token { t with leading := trivia }
  | module name suffix => module { name with leading := trivia } suffix

def trailBy (trivia : List Trivia) : LiteralPiece → LiteralPiece
  | token t => token { t with trailing := trivia }
  | module name suffix => module name { suffix with trailing := trivia }

def isModule : LiteralPiece → Bool
  | module _ _ => true
  | token _ => false

def tokens : LiteralPiece → List Token
  | token t => [t]
  | module name suffix => [name, suffix]

end LiteralPiece

structure LiteralParts where
  pieces : List LiteralPiece
  errors : List LexicalError

namespace LiteralParts

def joinText : List (Tile Segment) → List (Tile Segment)
  | [] => []
  | tile :: tiles =>
      if tile.what.isText then
        match joinText tiles with
        | ⟨.text, span, text⟩ :: more =>
            ⟨.text, tile.span.cover span, tile.text ++ text⟩ :: more
        | joined => { tile with what := .text } :: joined
      else tile :: joinText tiles

def bareToken (kind : TokenKind) (tile : Tile Segment) : Token :=
  Token.bare kind tile.span (String.ofList tile.text)

def piece (tile : Tile Segment) : LiteralPiece :=
  match tile.what with
  | .escape => .token (bareToken .escape tile)
  | .format => .token (bareToken .format tile)
  | .module nameLength =>
      let (name, suffix) := tile.text.splitAt nameLength
      let middle := tile.span.start + byteLength name
      .module (Token.bare .name ⟨tile.span.start, middle⟩ (String.ofList name))
        (Token.bare .moduleSuffix ⟨middle, tile.span.stop⟩ (String.ofList suffix))
  | _ => .token (bareToken .literalText tile)

def error? (tile : Tile Segment) : Option LexicalError :=
  match tile.what with
  | .invalidEscape => some ⟨.invalidEscape (String.ofList tile.text), tile.span⟩
  | .invalidFormat => some ⟨.invalidFormat (String.ofList tile.text), tile.span⟩
  | _ => none

def cut (terminated : Bool) : List Char → List Char × List Char × List Char
  | [] => ([], [], [])
  | opening :: rest =>
      if terminated then ([opening], rest.dropLast, rest.getLast?.toList)
      else ([opening], rest, [])

def quote (offset : Nat) (cs : List Char) : LiteralPiece :=
  .token (Token.bare .quote ⟨offset, offset + byteLength cs⟩ (String.ofList cs))

def trailLast (trivia : List Trivia) : List LiteralPiece → List LiteralPiece
  | [] => []
  | [last] => [last.trailBy trivia]
  | piece :: more => piece :: trailLast trivia more

def dress (token : Token) (pieces : List LiteralPiece) : List LiteralPiece :=
  trailLast token.trailing (pieces.modifyHead (LiteralPiece.leadBy token.leading))

/-- Splits a literal. A path that names no module is an error of the whole literal. -/
def ofToken (flavor : Flavor) (token : Token) : LiteralParts :=
  let (opening, body, closing) := cut (token.kind.terminated? == some true) token.text.toList
  let start := token.span.start
  let bodyStart := start + byteLength opening
  let segments := tiles (Segment.read flavor) bodyStart body
  let inner := (joinText segments).map piece
  let closingQuote := if closing.isEmpty then [] else [quote (bodyStart + byteLength body) closing]
  let pathError :=
    if flavor = .path ∧ ¬ inner.any LiteralPiece.isModule then [⟨.missingModule, token.span⟩]
    else []
  { pieces := dress token (quote start opening :: inner ++ closingQuote)
    errors := segments.filterMap error? ++ pathError }

end LiteralParts

end UmkaSyntax
