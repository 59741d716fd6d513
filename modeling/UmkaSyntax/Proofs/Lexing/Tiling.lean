import UmkaSyntax.Lexing.Stream
import UmkaSyntax.Proofs.Source.Layout

namespace UmkaSyntax

def Tile.stretch {α : Type} (tile : Tile α) : Stretch := ⟨tile.span, tile.text⟩

section Tiles
variable {α : Type} (read : Reader α)

theorem tilesAfter_laid (offset skip : Nat) (cs : List Char) :
    Laid (offset + byteLength (cs.take skip)) ((tilesAfter read offset skip cs).map Tile.stretch)
      (offset + byteLength cs) := by
  induction cs generalizing offset skip with
  | nil => simp [tilesAfter, byteLength]
  | cons c cs ih =>
      cases skip with
      | zero =>
          have rest := ih (offset + c.utf8Size) (read c cs).2
          simp only [tilesAfter, List.map_cons, Tile.stretch, List.take_zero, byteLength,
            Nat.add_zero, laid_cons, true_and]
          simpa only [Nat.add_assoc] using rest
      | succ skip =>
          simpa only [tilesAfter, List.take_succ_cons, byteLength, Nat.add_assoc] using
            ih (offset + c.utf8Size) skip

theorem spelled_tilesAfter (offset skip : Nat) (cs : List Char) :
    spelled ((tilesAfter read offset skip cs).map Tile.stretch) = cs.drop skip := by
  induction cs generalizing offset skip with
  | nil => simp [tilesAfter]
  | cons c cs ih =>
      cases skip with
      | zero => simp [tilesAfter, Tile.stretch, ih]
      | succ skip => simp [tilesAfter, ih]

theorem tiles_laid (offset : Nat) (cs : List Char) :
    Laid offset ((tiles read offset cs).map Tile.stretch) (offset + byteLength cs) :=
  tilesAfter_laid read offset 0 cs

theorem spelled_tiles (offset : Nat) (cs : List Char) :
    spelled ((tiles read offset cs).map Tile.stretch) = cs :=
  spelled_tilesAfter read offset 0 cs

end Tiles

/-- The tiles are what stands in the characters from their front to their end. -/
inductive Tiling {α : Type} (stands : List Char → α → List Char → Prop) :
    Nat → List Char → List (Tile α) → Prop
  | nil {offset : Nat} : Tiling stands offset [] []
  | cons {offset : Nat} {what : α} {c : Char} {more rest : List Char} {tiles : List (Tile α)} :
      stands (c :: (more ++ rest)) what (c :: more) →
      Tiling stands (offset + byteLength (c :: more)) rest tiles →
      Tiling stands offset (c :: (more ++ rest))
        (⟨what, ⟨offset, offset + byteLength (c :: more)⟩, c :: more⟩ :: tiles)

section Grammar
variable {α : Type} {read : Reader α} {stands : List Char → α → List Char → Prop}
  (decides : ∀ c cs what text, stands (c :: cs) what text ↔
    what = (read c cs).1 ∧ text = c :: cs.take (read c cs).2)
include decides

theorem tilesAfter_tiling (offset skip : Nat) (cs : List Char) :
    Tiling stands (offset + byteLength (cs.take skip)) (cs.drop skip)
      (tilesAfter read offset skip cs) := by
  induction cs generalizing offset skip with
  | nil =>
      rw [List.drop_nil]
      exact .nil
  | cons c cs ih =>
      cases skip with
      | succ skip =>
          simpa only [tilesAfter, List.take_succ_cons, List.drop_succ_cons, byteLength,
            Nat.add_assoc] using ih (offset + c.utf8Size) skip
      | zero =>
          have rest := ih (offset + c.utf8Size) (read c cs).2
          rw [Nat.add_assoc] at rest
          have here : stands (c :: (cs.take (read c cs).2 ++ cs.drop (read c cs).2)) (read c cs).1
              (c :: cs.take (read c cs).2) := by
            rw [List.take_append_drop]
            exact (decides ..).mpr ⟨rfl, rfl⟩
          have whole := Tiling.cons here rest
          rw [List.take_append_drop] at whole
          exact whole

theorem Tiling.unique {offset : Nat} {cs : List Char} {left right : List (Tile α)}
    (a : Tiling stands offset cs left) (b : Tiling stands offset cs right) : left = right := by
  induction a generalizing right with
  | nil =>
      cases b
      rfl
  | @cons offset what c more rest tiles here _ ih =>
      generalize whole : c :: (more ++ rest) = ds at b
      cases b with
      | nil => cases whole
      | cons there others =>
          obtain ⟨rfl, tail⟩ := List.cons.inj whole
          rw [← tail] at there
          obtain ⟨rfl, text⟩ := (decides ..).mp here
          obtain ⟨rfl, text'⟩ := (decides ..).mp there
          obtain rfl := (List.cons.inj (text.trans text'.symm)).2
          obtain rfl := List.append_cancel_left tail
          rw [ih others]

theorem tiling_iff (offset : Nat) (cs : List Char) (other : List (Tile α)) :
    Tiling stands offset cs other ↔ other = tiles read offset cs := by
  have cut : Tiling stands offset cs (tiles read offset cs) :=
    tilesAfter_tiling decides offset 0 cs
  refine ⟨fun other => other.unique decides cut, ?_⟩
  rintro rfl
  exact cut

end Grammar

def Trivia.stretch (t : Trivia) : Stretch := ⟨t.span, t.text.toList⟩

namespace Token

def own (t : Token) : Stretch := ⟨t.span, t.text.toList⟩

def stretches (t : Token) : List Stretch :=
  t.leading.map Trivia.stretch ++ t.own :: t.trailing.map Trivia.stretch

theorem toList_sourceText (t : Token) : t.sourceText.toList = spelled t.stretches := by
  simp [sourceText, stretches, own, spelled, List.flatMap_map, Trivia.stretch]

end Token

inductive PieceKind
  | trivia (kind : TriviaKind)
  | token (kind : TokenKind)
  deriving DecidableEq

def Lexeme.pieceKind : Lexeme → PieceKind
  | trivia kind _ => .trivia kind
  | token kind => .token kind

def Tile.piece (tile : Tile Lexeme) : Tile PieceKind :=
  ⟨tile.what.pieceKind, tile.span, tile.text⟩

def Trivia.piece (t : Trivia) : Tile PieceKind := ⟨.trivia t.kind, t.span, t.text.toList⟩

namespace Token

def piece (t : Token) : Tile PieceKind := ⟨.token t.kind, t.span, t.text.toList⟩

def pieces (t : Token) : List (Tile PieceKind) :=
  t.leading.map Trivia.piece ++ t.piece :: t.trailing.map Trivia.piece

theorem stretches_eq (t : Token) : t.stretches = t.pieces.map Tile.stretch := by
  simp only [stretches, pieces, List.map_append, List.map_cons, List.map_map]
  rfl

end Token

namespace TokenStream

def pieces (stream : TokenStream) : List (Tile PieceKind) := stream.toList.flatMap Token.pieces

theorem map_stretch_pieces (stream : TokenStream) :
    stream.pieces.map Tile.stretch = stream.toList.flatMap Token.stretches := by
  rw [pieces, List.map_flatMap]
  exact List.flatMap_congr fun t _ => t.stretches_eq.symm

def Spaced.pieces (s : Spaced) : List (Tile PieceKind) := s.gap.map Trivia.piece ++ [s.token.piece]

theorem space_pieces (gap : List Trivia) (tiles : List (Tile Lexeme)) :
    (space gap tiles).1.flatMap Spaced.pieces ++ (space gap tiles).2.map Trivia.piece =
      gap.map Trivia.piece ++ tiles.map Tile.piece := by
  induction tiles generalizing gap with
  | nil => simp [space]
  | cons tile tiles ih =>
      cases what : tile.what with
      | trivia kind closed =>
          simp [space, what, ih, Trivia.piece, Tile.piece, Lexeme.pieceKind]
      | token kind =>
          have rest := ih []
          simp only [List.map_nil, List.nil_append] at rest
          simp [space, what, Spaced.pieces, Token.piece, Token.bare, Tile.piece, Lexeme.pieceKind,
            rest]

theorem attach_pieces (last : List Trivia) (spaced : List Spaced) :
    (trailingGap last spaced).map Trivia.piece ++
        (attach false last spaced).flatMap Token.pieces =
      spaced.flatMap Spaced.pieces ++ last.map Trivia.piece := by
  induction spaced with
  | nil => simp [trailingGap, attach]
  | cons next more ih =>
      rw [attach, List.flatMap_cons, List.flatMap_cons, List.append_assoc, ← ih]
      by_cases newline : next.token.kind = .newline
      · simp [trailingGap, newline, Token.pieces, Token.piece, Spaced.pieces]
      · simp [trailingGap, newline, Token.pieces, Token.piece, Spaced.pieces]

theorem attach_first_pieces (last : List Trivia) (next : Spaced) (more : List Spaced) :
    (attach true last (next :: more)).flatMap Token.pieces =
      (next :: more).flatMap Spaced.pieces ++ last.map Trivia.piece := by
  rw [attach, List.flatMap_cons, List.flatMap_cons, List.append_assoc, ← attach_pieces]
  simp [Token.pieces, Token.piece, Spaced.pieces]

theorem pieces_ofText (cs : List Char) :
    (ofText cs).pieces = (tiles Lexeme.read 0 cs).map Tile.piece ++
      [⟨.token .endOfInput, Span.emptyAt (byteLength cs), []⟩] := by
  have spaces := space_pieces [] (tiles Lexeme.read 0 cs)
  rw [List.map_nil, List.nil_append] at spaces
  rw [← spaces]
  simp only [pieces, toList, ofText]
  cases spaced : (space [] (tiles Lexeme.read 0 cs)).1 with
  | nil => simp [attach, Token.pieces, Token.piece, Token.bare]
  | cons next more =>
      rw [List.flatMap_append, attach_first_pieces]
      simp [Token.pieces, Token.piece, Token.bare]

theorem toList_stretches (cs : List Char) :
    (ofText cs).toList.flatMap Token.stretches =
      (tiles Lexeme.read 0 cs).map Tile.stretch ++ [⟨Span.emptyAt (byteLength cs), []⟩] := by
  rw [← map_stretch_pieces, pieces_ofText, List.map_append, List.map_map]
  rfl

/-- The tokens of a source cover it from its first byte to its last. -/
theorem ofText_laid (cs : List Char) :
    Laid 0 ((ofText cs).toList.flatMap Token.stretches) (byteLength cs) := by
  rw [toList_stretches, laid_append]
  exact ⟨byteLength cs, by simpa using tiles_laid Lexeme.read 0 cs,
    by simp [laid_cons, Span.emptyAt, byteLength]⟩

theorem spelled_ofText (cs : List Char) :
    spelled ((ofText cs).toList.flatMap Token.stretches) = cs := by
  rw [toList_stretches, spelled_append, spelled_tiles]
  simp

end TokenStream

end UmkaSyntax
