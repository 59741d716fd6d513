import Mathlib.Data.List.Chain
import UmkaSyntax.Proofs.Literal.Reading
import UmkaSyntax.Proofs.Literal.Tiling

namespace UmkaSyntax

/-- The token is a literal with the body between its quotes. -/
inductive Token.HasBody (t : Token) (body : List Char) : Prop
  | closed {quote : Char} {kind : Bool → TokenKind} :
      Opens quote kind → t.kind = kind true → t.text.toList = quote :: (body ++ ['"']) →
      HasBody t body
  | unclosed {quote : Char} {kind : Bool → TokenKind} :
      Opens quote kind → t.kind = kind false → t.text.toList = quote :: body → HasBody t body

theorem Stands.literal {cs : List Char} {kind : TokenKind} {text : List Char}
    (stands : Stands cs (.token kind) text) (literal : kind.isLiteral = true) :
    ∃ quote form body, Opens quote form ∧
      (kind = form true ∧ text = quote :: (body ++ ['"']) ∨ kind = form false ∧ text = quote :: body) := by
  cases stands with
  | unknown => cases literal
  | declared declared =>
      cases declared with
      | newline => cases literal
      | semicolon => cases literal
      | number _ numeral => cases numeral <;> cases literal
      | literal opens => exact ⟨_, _, _, opens, .inl ⟨rfl, rfl⟩⟩
      | openLiteral opens => exact ⟨_, _, _, opens, .inr ⟨rfl, rfl⟩⟩
      | name => cases literal
      | punct => cases literal

namespace TokenStream

theorem exists_body {cs : List Char} {t : Token} (mem : t ∈ (ofText cs).toList)
    (literal : t.kind.isLiteral = true) :
    (∃ body, t.HasBody body) ∧ t.span.stop = t.span.start + byteLength t.text.toList := by
  have isPiece : t.piece ∈ (ofText cs).pieces :=
    List.mem_flatMap.mpr ⟨t, mem, by simp [Token.pieces]⟩
  rw [pieces_ofText, List.mem_append, List.mem_map, List.mem_singleton] at isPiece
  obtain ⟨tile, mem, eq⟩ | eq := isPiece
  · obtain ⟨c, more, what, text, size⟩ := Tile.exists_letters mem
    simp only [Tile.piece, Token.piece, Tile.mk.injEq] at eq
    obtain ⟨kind, span, letters⟩ := eq
    rw [letters] at text
    rw [what] at kind
    have stands := stands_iff.mpr ⟨kind.symm, text⟩
    obtain ⟨quote, form, body, opens, ⟨kind, text⟩ | ⟨kind, text⟩⟩ := stands.literal literal
    · exact ⟨⟨body, .closed opens kind text⟩, by rw [← span, ← letters, size]⟩
    · exact ⟨⟨body, .unclosed opens kind text⟩, by rw [← span, ← letters, size]⟩
  · simp only [Token.piece, Tile.mk.injEq, PieceKind.token.injEq] at eq
    rw [eq.1] at literal
    cases literal

end TokenStream

def Token.closing (t : Token) : List Char := if t.kind.terminated? = some true then ['"'] else []

theorem Token.HasBody.text_eq {t : Token} {body : List Char} (has : t.HasBody body) :
    ∃ quote, quote.utf8Size = 1 ∧ t.text.toList = quote :: (body ++ t.closing) := by
  cases has with
  | @closed quote form opens kind text =>
      refine ⟨quote, by cases opens <;> rfl, text.trans ?_⟩
      have closing : t.closing = ['"'] := by
        rw [Token.closing, kind]
        cases opens <;> rfl
      rw [closing]
  | @unclosed quote form opens kind text =>
      refine ⟨quote, by cases opens <;> rfl, text.trans ?_⟩
      have closing : t.closing = [] := by
        rw [Token.closing, kind]
        cases opens <;> rfl
      rw [closing, List.append_nil]

namespace LiteralParts

theorem cut_eq (quote : Char) (body : List Char) (t : Token) :
    cut (t.kind.terminated? == some true) (quote :: (body ++ t.closing)) =
      ([quote], body, t.closing) := by
  by_cases closed : t.kind.terminated? = some true
  · simp [cut, Token.closing, closed]
  · simp [cut, Token.closing, closed]

def bodyTiles (flavor : Flavor) (t : Token) (body : List Char) : List (Tile Segment) :=
  tiles (Segment.read flavor) (t.span.start + 1) body

def bodyPieces (flavor : Flavor) (t : Token) (body : List Char) : List LiteralPiece :=
  (joinText (bodyTiles flavor t body)).map piece

def closingPieces (t : Token) (body : List Char) : List LiteralPiece :=
  if t.closing = [] then [] else [quote (t.span.start + 1 + byteLength body) t.closing]

theorem ofToken_of_hasBody (flavor : Flavor) {t : Token} {body : List Char} (has : t.HasBody body) :
    ∃ opening, opening.utf8Size = 1 ∧ ofToken flavor t =
      { pieces := dress t
          (quote t.span.start [opening] :: (bodyPieces flavor t body ++ closingPieces t body))
        errors := (bodyTiles flavor t body).filterMap error? ++
          if flavor = .path ∧ ¬(bodyPieces flavor t body).any LiteralPiece.isModule then
            [⟨.missingModule, t.span⟩] else [] } := by
  obtain ⟨opening, size, text⟩ := has.text_eq
  refine ⟨opening, size, ?_⟩
  simp only [ofToken, text, cut_eq, byteLength, size, Nat.add_zero, bodyPieces, bodyTiles,
    closingPieces, List.isEmpty_iff, List.cons_append]
  rfl

theorem filterMap_joinText {β : Type} {f : Tile Segment → Option β}
    (text : ∀ tile, tile.what.isText = true → f tile = none) (tiles : List (Tile Segment)) :
    (joinText tiles).filterMap f = tiles.filterMap f := by
  induction tiles with
  | nil => rfl
  | cons tile tiles ih =>
      rw [joinText]
      split
      · rename_i isText
        rw [List.filterMap_cons_none (text tile isText), ← ih]
        split
        · rename_i joined
          rw [joined, List.filterMap_cons_none (text _ rfl), List.filterMap_cons_none (text _ rfl)]
        · rw [List.filterMap_cons_none (text _ rfl)]
      · rw [List.filterMap_cons, List.filterMap_cons, ih]

theorem exists_joined {tile : Tile Segment} {tiles : List (Tile Segment)} (mem : tile ∈ tiles)
    (isText : tile.what.isText = true) :
    ∃ joined ∈ joinText tiles, joined.what = .text ∧ joined.span.start ≤ tile.span.start ∧
      tile.span.stop ≤ joined.span.stop := by
  induction tiles with
  | nil => cases mem
  | cons first tiles ih =>
      rw [joinText]
      rcases List.mem_cons.mp mem with rfl | mem
      · rw [if_pos isText]
        split
        · exact ⟨_, List.mem_cons_self, rfl, Nat.min_le_left .., Nat.le_max_left ..⟩
        · exact ⟨_, List.mem_cons_self, rfl, Nat.le_refl _, Nat.le_refl _⟩
      · obtain ⟨joined, mem, what, start, stop⟩ := ih mem
        split
        · split
          · rename_i span text more eq
            rw [eq] at mem
            rcases List.mem_cons.mp mem with rfl | mem
            · exact ⟨_, List.mem_cons_self, rfl, Nat.le_trans (Nat.min_le_right ..) start,
                Nat.le_trans stop (Nat.le_max_right ..)⟩
            · exact ⟨joined, List.mem_cons_of_mem _ mem, what, start, stop⟩
          · exact ⟨joined, List.mem_cons_of_mem _ mem, what, start, stop⟩
        · exact ⟨joined, List.mem_cons_of_mem _ mem, what, start, stop⟩

theorem joinText_tiles {tiles : List (Tile Segment)} (filled : ∀ tile ∈ tiles, tile.text ≠ []) :
    ∀ joined ∈ joinText tiles, joined.text ≠ [] ∧
      (joined.what = .text ∨ joined.what.isText = false ∧ joined ∈ tiles) := by
  induction tiles with
  | nil => simp [joinText]
  | cons tile tiles ih =>
      obtain ⟨here, later⟩ := List.forall_mem_cons.mp filled
      have rest := ih later
      have kept : ∀ joined ∈ joinText tiles, joined.text ≠ [] ∧
          (joined.what = .text ∨ joined.what.isText = false ∧ joined ∈ tile :: tiles) :=
        fun joined mem => ⟨(rest joined mem).1,
          (rest joined mem).2.imp_right (And.imp_right (List.mem_cons_of_mem _))⟩
      rw [joinText]
      split
      · split
        · rename_i eq
          rw [eq, List.forall_mem_cons] at kept
          exact List.forall_mem_cons.mpr ⟨⟨by simp [here], .inl rfl⟩, kept.2⟩
        · exact List.forall_mem_cons.mpr ⟨⟨here, .inl rfl⟩, kept⟩
      · rename_i sequence
        exact List.forall_mem_cons.mpr
          ⟨⟨here, .inr ⟨Bool.eq_false_iff.mpr sequence, List.mem_cons_self⟩⟩, kept⟩

theorem joinText_chain (tiles : List (Tile Segment)) :
    (joinText tiles).IsChain fun left right => ¬(left.what = .text ∧ right.what = .text) := by
  induction tiles with
  | nil => exact .nil
  | cons tile tiles ih =>
      rw [joinText]
      split
      · split
        · rename_i eq
          rw [eq, List.isChain_cons] at ih
          exact List.isChain_cons.mpr ih
        · rename_i other
          refine List.isChain_cons.mpr ⟨fun next mem both => ?_, ih⟩
          obtain ⟨what, span, text⟩ := next
          obtain rfl : what = .text := both.2
          obtain ⟨more, eq⟩ := List.head?_eq_some_iff.mp mem
          exact other _ _ _ eq
      · rename_i sequence
        refine List.isChain_cons.mpr ⟨fun next mem both => sequence ?_, ih⟩
        rw [both.1]
        rfl

end LiteralParts

def Token.mark (t : Token) : TokenKind × Stretch := (t.kind, t.own)

def LiteralPiece.marks (p : LiteralPiece) : List (TokenKind × Stretch) := p.tokens.map Token.mark

namespace LiteralParts

theorem marks_dress (t : Token) (pieces : List LiteralPiece) :
    (dress t pieces).map LiteralPiece.marks = pieces.map LiteralPiece.marks := by
  refine map_dress ?_ ?_ t pieces
  all_goals
    rintro trivia (t | ⟨name, suffix⟩) <;> rfl

theorem marks_tokens (l : LiteralParts) :
    l.tokens.map Token.mark = (l.pieces.map LiteralPiece.marks).flatten := by
  rw [tokens, List.map_flatMap, List.flatten_eq_flatMap, List.flatMap_map]
  rfl

end LiteralParts

def Tile.sequence? (tile : Tile Segment) : Option (List (TokenKind × Stretch)) :=
  match tile.what with
  | .escape => some [(.escape, tile.stretch)]
  | .format => some [(.format, tile.stretch)]
  | .module nameLength =>
      let name := tile.text.take nameLength
      let middle := tile.span.start + byteLength name
      some [(.name, ⟨⟨tile.span.start, middle⟩, name⟩),
        (.moduleSuffix, ⟨⟨middle, tile.span.stop⟩, tile.text.drop nameLength⟩)]
  | _ => none

def Tile.marks (tile : Tile Segment) : List (TokenKind × Stretch) :=
  tile.sequence?.getD [(.literalText, tile.stretch)]

def Stretch.quoteMarks (s : Stretch) : List (TokenKind × Stretch) := [(.quote, s)]

namespace LiteralParts

theorem marks_piece (tile : Tile Segment) : (piece tile).marks = tile.marks := by
  obtain ⟨what, span, text⟩ := tile
  cases what <;>
    simp [piece, Tile.marks, Tile.sequence?, LiteralPiece.marks, LiteralPiece.tokens, Token.mark,
      Token.own, bareToken, Token.bare, Tile.stretch, List.splitAt_eq]

theorem marks_quote (offset : Nat) (cs : List Char) :
    (quote offset cs).marks = Stretch.quoteMarks ⟨⟨offset, offset + byteLength cs⟩, cs⟩ := by
  simp [quote, LiteralPiece.marks, LiteralPiece.tokens, Token.mark, Token.own, Token.bare,
    Stretch.quoteMarks]

def closingStretches (t : Token) (body : List Char) : List Stretch :=
  if t.closing = [] then []
  else
    let start := t.span.start + 1 + byteLength body
    [⟨⟨start, start + byteLength t.closing⟩, t.closing⟩]

theorem marks_ofToken (flavor : Flavor) {t : Token} {body : List Char} (has : t.HasBody body) :
    ∃ opening, opening.utf8Size = 1 ∧ (ofToken flavor t).pieces.map LiteralPiece.marks =
      Stretch.quoteMarks ⟨⟨t.span.start, t.span.start + 1⟩, [opening]⟩ ::
        ((joinText (bodyTiles flavor t body)).map Tile.marks ++
          (closingStretches t body).map Stretch.quoteMarks) := by
  obtain ⟨opening, size, eq⟩ := ofToken_of_hasBody flavor has
  refine ⟨opening, size, ?_⟩
  have inner : (bodyPieces flavor t body).map LiteralPiece.marks =
      (joinText (bodyTiles flavor t body)).map Tile.marks := by
    rw [bodyPieces, List.map_map]
    exact List.map_congr_left fun tile _ => marks_piece tile
  have closing : (closingPieces t body).map LiteralPiece.marks =
      (closingStretches t body).map Stretch.quoteMarks := by
    unfold closingPieces closingStretches
    split
    · rfl
    · rw [List.map_singleton, marks_quote]
      rfl
  rw [eq, marks_dress, List.map_cons, List.map_append, marks_quote, inner, closing]
  simp only [byteLength, size, Nat.add_zero]

end LiteralParts

end UmkaSyntax
