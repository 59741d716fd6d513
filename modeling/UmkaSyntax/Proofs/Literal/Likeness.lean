import UmkaSyntax.Parsing.Builder
import UmkaSyntax.Proofs.Lexing.Likeness
import UmkaSyntax.Proofs.Literal.Shift
import UmkaSyntax.Proofs.Literal.Tiling

namespace UmkaSyntax

def Token.unplaced (t : Token) : Token :=
  Token.bare t.kind ⟨0, byteLength t.text.toList⟩ t.text

theorem Token.shift_unplaced {t : Token}
    (sized : t.span.stop = t.span.start + byteLength t.text.toList) :
    t.unplaced.shift t.span.start = { t with leading := [], trailing := [] } := by
  obtain ⟨kind, ⟨start, stop⟩, text, leading, trailing⟩ := t
  simp only [unplaced, bare, shift, Span.shift, List.map_nil, Token.mk.injEq, Span.mk.injEq,
    true_and, and_true, Nat.zero_add]
  simp only at sized
  omega

namespace LiteralPiece

theorem erased_leadBy (free : Bool) (trivia : List Trivia) (piece : LiteralPiece) :
    (piece.leadBy trivia).toChild.erased free = piece.toChild.erased free := by
  cases piece with
  | token t => rfl
  | module name suffix =>
      simp only [leadBy, toChild, Child.erased, Node.erased_ofChildren, List.map_cons, List.map_nil]
      rfl

theorem erased_trailBy (free : Bool) (trivia : List Trivia) (piece : LiteralPiece) :
    (piece.trailBy trivia).toChild.erased free = piece.toChild.erased free := by
  cases piece with
  | token t => rfl
  | module name suffix =>
      simp only [trailBy, toChild, Child.erased, Node.erased_ofChildren, List.map_cons, List.map_nil]
      rfl

theorem erased_shift (free : Bool) (k : Nat) (piece : LiteralPiece) :
    (piece.shift k).toChild.erased free = piece.toChild.erased free := by
  cases piece with
  | token t => rfl
  | module name suffix =>
      simp only [shift, toChild, Child.erased, Node.erased_ofChildren, List.map_cons, List.map_nil]
      rfl

end LiteralPiece

namespace LiteralParts

theorem erased_dress (free : Bool) (t : Token) (pieces : List LiteralPiece) :
    (dress t pieces).map (·.toChild.erased free) = pieces.map (·.toChild.erased free) :=
  map_dress (LiteralPiece.erased_trailBy free) (LiteralPiece.erased_leadBy free) t pieces

section
variable {t : Token} (sized : t.span.stop = t.span.start + byteLength t.text.toList)
  (flavor : Flavor)
include sized

theorem errors_unplaced : (ofToken flavor t).errors =
    (ofToken flavor t.unplaced).errors.map (LexicalError.shift t.span.start) := by
  rw [← errors_shift, ← ofToken_shift, Token.shift_unplaced sized]
  rfl

theorem pieces_unplaced (free : Bool) :
    (ofToken flavor t).pieces.map (·.toChild.erased free) =
      (ofToken flavor t.unplaced).pieces.map (·.toChild.erased free) := by
  have undressed : (ofToken flavor t).pieces.map (·.toChild.erased free) =
      (ofToken flavor { t with leading := [], trailing := [] }).pieces.map
        (·.toChild.erased free) := by
    simp only [ofToken]
    rw [erased_dress, erased_dress]
  rw [undressed, ← Token.shift_unplaced sized, ofToken_shift]
  simp only [shift, List.map_map]
  exact List.map_congr_left fun piece _ => LiteralPiece.erased_shift free _ piece

theorem toNode_unplaced (kind : NodeKind) (offset : Nat) :
    ((ofToken flavor t).toNode kind offset).erased =
      ((ofToken flavor t.unplaced).toNode kind 0).erased := by
  simp only [toNode, Node.erased_ofChildren, List.map_map]
  congr 1
  exact pieces_unplaced sized flavor _

end

theorem start_of_mem_errors {flavor : Flavor} {t : Token} {e : LexicalError}
    (mem : e ∈ (ofToken flavor t.unplaced).errors) :
    e.span.start = 0 ∨ e.span.start < byteLength t.text.toList := by
  simp only [ofToken] at mem
  have whole := cut_append (t.unplaced.kind.terminated? == some true) t.unplaced.text.toList
  generalize cut (t.unplaced.kind.terminated? == some true) t.unplaced.text.toList = parts at mem whole
  obtain ⟨opening, body, closing⟩ := parts
  obtain mem | mem := List.mem_append.mp mem
  · obtain ⟨tile, inside, eq⟩ := List.mem_filterMap.mp mem
    obtain ⟨-, filled, stops⟩ := Tile.exists_read inside
    have span : e.span = tile.span := by
      unfold error? at eq
      split at eq <;> cases eq <;> rfl
    have length := congrArg byteLength whole
    simp only [byteLength_append] at length stops
    have start : t.unplaced.span.start = 0 := rfl
    have inner : e.span.start < byteLength t.unplaced.text.toList := by
      rw [span]
      omega
    exact .inr inner
  · split at mem
    · obtain rfl := List.mem_singleton.mp mem
      exact .inl rfl
    · cases mem

end LiteralParts

end UmkaSyntax
