import UmkaSyntax.Error.Lexical
import UmkaSyntax.Lexing.Lexeme
import UmkaSyntax.Source.Basic
import UmkaSyntax.Token.Basic

/-!
The tokens of a source. Every tile of the source is a token or trivia. Trivia before a newline or
the end of the source trails the token in front of it; all other trivia leads the token after it.
-/

namespace UmkaSyntax

structure TokenStream where
  tokens : List Token
  endOfInput : Token
  errors : List LexicalError

namespace TokenStream

def toList (stream : TokenStream) : List Token := stream.tokens ++ [stream.endOfInput]

def issue? : Lexeme → Option LexicalIssue
  | .trivia _ false => some .unterminatedComment
  | .token (.string false) => some .unterminatedString
  | .token (.character false) => some .unterminatedCharacter
  | _ => none

def error? (tile : Tile Lexeme) : Option LexicalError :=
  (issue? tile.what).map fun issue => ⟨issue, tile.span⟩

structure Spaced where
  gap : List Trivia
  token : Token

/-- Pairs each token with the gap before it, where `gap` is open at the first tile. The last gap
is the one at the end of the source. -/
def space (gap : List Trivia) : List (Tile Lexeme) → List Spaced × List Trivia
  | [] => ([], gap)
  | tile :: tiles =>
      let text := String.ofList tile.text
      match tile.what with
      | .trivia kind _ => space (gap ++ [⟨kind, tile.span, text⟩]) tiles
      | .token kind =>
          let (spaced, last) := space [] tiles
          (⟨gap, Token.bare kind tile.span text⟩ :: spaced, last)

/-- The trivia that trails a token, given what follows and the gap at the end of the source. -/
def trailingGap (last : List Trivia) : List Spaced → List Trivia
  | [] => last
  | next :: _ => if next.token.kind = .newline then next.gap else []

def attach (isFirst : Bool) (last : List Trivia) : List Spaced → List Token
  | [] => []
  | ⟨gap, token⟩ :: more =>
      { token with
        leading := if isFirst || token.kind != .newline then gap else []
        trailing := trailingGap last more } :: attach false last more

def ofText (cs : List Char) : TokenStream :=
  let tiles := tiles Lexeme.read 0 cs
  let (spaced, last) := space [] tiles
  let endOfInput := Token.bare .endOfInput (Span.emptyAt (byteLength cs)) ""
  { tokens := attach true last spaced
    endOfInput := { endOfInput with leading := if spaced.isEmpty then last else [] }
    errors := tiles.filterMap error? }

end TokenStream

end UmkaSyntax
