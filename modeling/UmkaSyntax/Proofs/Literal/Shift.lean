import UmkaSyntax.Parsing.Builder
import UmkaSyntax.Proofs.Literal.Tiling
import UmkaSyntax.Proofs.Tree.Shift

namespace UmkaSyntax

def LiteralPiece.shift (k : Nat) : LiteralPiece → LiteralPiece
  | token t => token (t.shift k)
  | module name suffix => module (name.shift k) (suffix.shift k)

theorem LiteralPiece.leadBy_shift (k : Nat) (trivia : List Trivia) (piece : LiteralPiece) :
    (piece.shift k).leadBy (trivia.map (Trivia.shift k)) = (piece.leadBy trivia).shift k := by
  cases piece <;> rfl

theorem LiteralPiece.trailBy_shift (k : Nat) (trivia : List Trivia) (piece : LiteralPiece) :
    (piece.shift k).trailBy (trivia.map (Trivia.shift k)) = (piece.trailBy trivia).shift k := by
  cases piece <;> rfl

@[simp] theorem LiteralPiece.isModule_shift (k : Nat) (piece : LiteralPiece) :
    (piece.shift k).isModule = piece.isModule := by
  cases piece <;> rfl

namespace LiteralParts

theorem joinText_shift (k : Nat) (segments : List (Tile Segment)) :
    joinText (segments.map (Tile.shift k)) = (joinText segments).map (Tile.shift k) := by
  induction segments with
  | nil => rfl
  | cons tile segments ih =>
      simp only [List.map_cons, joinText, ih, Tile.shift]
      split
      · cases joinText segments with
        | nil => rfl
        | cons next more =>
            obtain ⟨what, span, text⟩ := next
            cases what <;> simp [Tile.shift, Span.cover_shift]
      · rfl

theorem piece_shift (k : Nat) (tile : Tile Segment) : piece (tile.shift k) = (piece tile).shift k := by
  obtain ⟨what, span, text⟩ := tile
  cases what with
  | module nameLength =>
      simp [piece, Tile.shift, LiteralPiece.shift, Token.bare, Token.shift, Span.shift,
        Nat.add_right_comm]
  | _ => rfl

theorem error?_shift (k : Nat) (tile : Tile Segment) :
    error? (tile.shift k) = (error? tile).map (LexicalError.shift k) := by
  obtain ⟨what, span, text⟩ := tile
  cases what <;> rfl

theorem quote_shift (k offset : Nat) (cs : List Char) :
    quote (offset + k) cs = (quote offset cs).shift k := by
  simp [quote, LiteralPiece.shift, Token.bare, Token.shift, Span.shift, Nat.add_right_comm]

theorem trailLast_shift (k : Nat) (trivia : List Trivia) (pieces : List LiteralPiece) :
    trailLast (trivia.map (Trivia.shift k)) (pieces.map (LiteralPiece.shift k)) =
      (trailLast trivia pieces).map (LiteralPiece.shift k) := by
  fun_induction trailLast trivia pieces with
  | case1 => rfl
  | case2 last => simp [trailLast, LiteralPiece.trailBy_shift]
  | case3 piece more several ih =>
      obtain ⟨next, rest, rfl⟩ := List.exists_cons_of_ne_nil (l := more) (by rintro rfl; exact several rfl)
      simp only [List.map_cons, trailLast] at ih ⊢
      rw [ih]

theorem dress_shift (k : Nat) (t : Token) (pieces : List LiteralPiece) :
    dress (t.shift k) (pieces.map (LiteralPiece.shift k)) =
      (dress t pieces).map (LiteralPiece.shift k) := by
  have led : (pieces.map (LiteralPiece.shift k)).modifyHead
      (LiteralPiece.leadBy (t.leading.map (Trivia.shift k))) =
        (pieces.modifyHead (LiteralPiece.leadBy t.leading)).map (LiteralPiece.shift k) := by
    cases pieces with
    | nil => rfl
    | cons piece more => simp [LiteralPiece.leadBy_shift]
  simp only [dress, Token.shift, led, trailLast_shift]

def shift (k : Nat) (literal : LiteralParts) : LiteralParts :=
  ⟨literal.pieces.map (LiteralPiece.shift k), literal.errors.map (LexicalError.shift k)⟩

theorem errors_shift (k : Nat) (literal : LiteralParts) :
    (literal.shift k).errors = literal.errors.map (LexicalError.shift k) := rfl

theorem ofToken_shift (k : Nat) (flavor : Flavor) (t : Token) :
    ofToken flavor (t.shift k) = (ofToken flavor t).shift k := by
  have sameCut : cut ((t.shift k).kind.terminated? == some true) (t.shift k).text.toList =
      cut (t.kind.terminated? == some true) t.text.toList := rfl
  have start : (t.shift k).span.start = t.span.start + k := rfl
  simp only [ofToken, sameCut, start]
  obtain ⟨opening, body, closing⟩ := cut (t.kind.terminated? == some true) t.text.toList
  rw [Nat.add_right_comm _ k (byteLength opening)]
  generalize t.span.start + byteLength opening = bodyStart
  rw [Nat.add_right_comm bodyStart k (byteLength body)]
  simp only [tiles_shift (Segment.read flavor) k bodyStart, joinText_shift, List.map_map,
    quote_shift k, shift, mk.injEq]
  have inner : ∀ segments : List (Tile Segment), segments.map (piece ∘ Tile.shift k) =
      (segments.map piece).map (LiteralPiece.shift k) := by
    intro segments
    rw [List.map_map]
    exact List.map_congr_left fun tile _ => piece_shift k tile
  have names : ∀ pieces : List LiteralPiece, (pieces.map (LiteralPiece.shift k)).any
      LiteralPiece.isModule = pieces.any LiteralPiece.isModule := by
    intro pieces
    simp [List.any_map, Function.comp_def]
  rw [inner, names]
  constructor
  · rw [← dress_shift]
    congr 1
    split <;> simp
  · rw [List.map_append]
    congr 1
    · simp [List.filterMap_map, List.map_filterMap, error?_shift]
    · split <;> rfl

theorem toNode_shift (k : Nat) (kind : NodeKind) (offset : Nat) (literal : LiteralParts) :
    (literal.shift k).toNode kind (offset + k) = (literal.toNode kind offset).shift k := by
  have child : ∀ piece : LiteralPiece,
      (piece.shift k).toChild = (piece.toChild).shift k := by
    intro piece
    cases piece with
    | token t => simp [LiteralPiece.shift, LiteralPiece.toChild, Child.shift]
    | module name suffix =>
        simp [LiteralPiece.shift, LiteralPiece.toChild, Child.shift, Node.ofChildren_shift,
          Token.shift, Span.shift]
  simp [toNode, shift, Node.ofChildren_shift, Function.comp_def, child]

end LiteralParts

end UmkaSyntax
