import UmkaSyntax.Proofs.Lexing.Grammar
import UmkaSyntax.Proofs.Lexing.Tiling

namespace UmkaSyntax

open Lexeme

/-- The pieces are what stands in the characters from their front to their end. -/
inductive Lexing : Nat → List Char → List (Tile PieceKind) → Prop
  | nil {offset : Nat} : Lexing offset [] []
  | cons {offset : Nat} {kind : PieceKind} {c : Char} {more rest : List Char}
      {pieces : List (Tile PieceKind)} :
      Stands (c :: (more ++ rest)) kind (c :: more) →
      Lexing (offset + byteLength (c :: more)) rest pieces →
      Lexing offset (c :: (more ++ rest))
        (⟨kind, ⟨offset, offset + byteLength (c :: more)⟩, c :: more⟩ :: pieces)

theorem lexing_iff {offset : Nat} {cs : List Char} {pieces : List (Tile PieceKind)} :
    Lexing offset cs pieces ↔ Tiling Stands offset cs pieces := by
  constructor
  · intro lexing
    induction lexing with
    | nil => exact .nil
    | cons stands _ ih => exact .cons stands ih
  · intro tiling
    induction tiling with
    | nil => exact .nil
    | cons stands _ ih => exact .cons stands ih

def readPiece : Reader PieceKind := fun c cs => ((read c cs).1.pieceKind, (read c cs).2)

theorem stands_iff_readPiece (c : Char) (cs : List Char) (kind : PieceKind) (text : List Char) :
    Stands (c :: cs) kind text ↔
      kind = (readPiece c cs).1 ∧ text = c :: cs.take (readPiece c cs).2 :=
  stands_iff

theorem Lexing.unique {offset : Nat} {cs : List Char} {left right : List (Tile PieceKind)}
    (a : Lexing offset cs left) (b : Lexing offset cs right) : left = right :=
  Tiling.unique stands_iff_readPiece (lexing_iff.mp a) (lexing_iff.mp b)

theorem tilesAfter_readPiece (offset skip : Nat) (cs : List Char) :
    tilesAfter readPiece offset skip cs = (tilesAfter read offset skip cs).map Tile.piece := by
  induction cs generalizing offset skip with
  | nil => rfl
  | cons c cs ih =>
      cases skip with
      | succ skip => exact ih (offset + c.utf8Size) skip
      | zero => exact congrArg (_ :: ·) (ih (offset + c.utf8Size) _)

theorem tilesAfter_lexing (offset skip : Nat) (cs : List Char) :
    Lexing (offset + byteLength (cs.take skip)) (cs.drop skip)
      ((tilesAfter read offset skip cs).map Tile.piece) := by
  rw [lexing_iff, ← tilesAfter_readPiece]
  exact tilesAfter_tiling stands_iff_readPiece offset skip cs

def Tile.OpenComment (piece : Tile PieceKind) : Prop :=
  piece.what = .trivia .blockComment ∧ ¬['*', '/'] <:+: piece.text.drop 2

instance : DecidablePred Tile.OpenComment := fun _ => inferInstanceAs (Decidable (_ ∧ _))

theorem Lexeme.isOpen_iff {c : Char} {cs : List Char} {kind : TriviaKind} {closed : Bool}
    (trivia : (read c cs).1 = .trivia kind closed) :
    (closed = false ↔
      kind = .blockComment ∧ ¬['*', '/'] <:+: (c :: cs.take (read c cs).2).drop 2) ∧
    (closed = false → cs.length ≤ (read c cs).2) := by
  revert trivia
  fun_cases read c cs with
  | case1 | case6 =>
      intro trivia
      cases trivia
      simp
  | case7 _ _ _ _ _ _ opens _ n what =>
      intro trivia
      cases trivia
      obtain ⟨rfl, head⟩ := opens
      obtain ⟨more, rfl⟩ := List.head?_eq_some_iff.mp head
      rw [List.drop_one, List.tail_cons] at what
      by_cases ends : ['*', '/'] <:+: more
      · obtain ⟨body, rest, rfl, first⟩ := exists_first_closer ends
        rw [commentRest_closed first] at what
        cases what
        have closes : ['*', '/'] <:+: body ++ ['*', '/'] := (List.suffix_append body _).isInfix
        simp [take_closed, closes]
      · rw [commentRest_open ends] at what
        cases what
        simp [ends]
  | _ =>
      intro trivia
      cases trivia

theorem Tile.openComment_iff {tile : Tile Lexeme} {c : Char} {cs : List Char}
    (what : tile.what = (read c cs).1) (text : tile.text = c :: cs.take (read c cs).2) :
    tile.piece.OpenComment ↔ tile.what = .trivia .blockComment false := by
  cases eq : tile.what with
  | trivia kind closed =>
      have isOpen := (isOpen_iff (what.symm.trans eq)).1
      rw [← text] at isOpen
      simp only [OpenComment, piece, eq, pieceKind, PieceKind.trivia.injEq, Lexeme.trivia.injEq,
        isOpen]
      tauto
  | token kind => simp [OpenComment, piece, eq, pieceKind]

namespace TokenStream

theorem closed_of_mem_dropLast {offset skip : Nat} {cs : List Char} {tile : Tile Lexeme}
    (mem : tile ∈ (tilesAfter read offset skip cs).dropLast) : ¬tile.piece.OpenComment := by
  induction cs generalizing offset skip with
  | nil => simp [tilesAfter] at mem
  | cons c cs ih =>
      cases skip with
      | succ skip => exact ih mem
      | zero =>
          simp only [tilesAfter] at mem
          cases after : tilesAfter read (offset + c.utf8Size) (read c cs).2 cs with
          | nil => simp [after] at mem
          | cons next tiles =>
              rw [after, List.dropLast_cons_of_ne_nil (List.cons_ne_nil _ _), ← after] at mem
              rcases List.mem_cons.mp mem with rfl | mem
              · intro isOpen
                have what := (Tile.openComment_iff rfl rfl).mp isOpen
                have all := (isOpen_iff what).2 rfl
                rw [tilesAfter_eq_nil.mpr all] at after
                cases after
              · exact ih mem

theorem error?_comment {tile : Tile Lexeme} {c : Char} {cs : List Char}
    (what : tile.what = (read c cs).1) (text : tile.text = c :: cs.take (read c cs).2) :
    (error? tile).filter (·.issue == .unterminatedComment) =
      if tile.piece.OpenComment then some ⟨.unterminatedComment, tile.span⟩ else none := by
  rw [if_congr (Tile.openComment_iff what text) rfl rfl]
  obtain ⟨what', span, text'⟩ := tile
  cases what' with
  | trivia kind closed =>
      cases closed with
      | true => simp [error?, issue?]
      | false =>
          have block := ((isOpen_iff what.symm).1.mp rfl).1
          simp [error?, issue?, block]
  | token kind =>
      cases kind with
      | string closed | character closed => cases closed <;> rfl
      | _ => rfl

theorem error?_of_closed {tile : Tile Lexeme} {c : Char} {cs : List Char}
    (what : tile.what = (read c cs).1) (text : tile.text = c :: cs.take (read c cs).2)
    (closed : ¬tile.piece.OpenComment) :
    ∀ e ∈ error? tile, (e.issue != .unterminatedComment) = true := by
  intro e mem
  have none := error?_comment what text
  rw [if_neg closed, Option.mem_def.mp mem, Option.filter_eq_none_iff] at none
  simpa using none e rfl

theorem tokens_unterminated (tokens : List Token) :
    (tokens.filterMap Token.lexicalError?).map (fun e => (e.issue.kind, e.span)) =
      (tokens.filter (·.kind.terminated? = some false)).map fun t =>
        (.unterminatedLiteral, t.span) := by
  rw [← List.filterMap_eq_map, ← List.filterMap_eq_map, List.filterMap_filterMap,
    List.filterMap_filter]
  apply List.filterMap_congr
  intro t _
  cases kind : t.kind with
  | string closed | character closed =>
      cases closed <;>
        simp [Token.lexicalError?, kind, issue?, TokenKind.terminated?, LexicalIssue.kind]
  | _ => simp [Token.lexicalError?, kind, issue?, TokenKind.terminated?]

theorem filter_append_filter_not {α : Type} {p : α → Bool} {init last : List α}
    (holds : ∀ x ∈ init, p x = true) (short : last.length ≤ 1) :
    (init ++ last).filter p ++ (init ++ last).filter (! p ·) = init ++ last := by
  have all : init.filter p = init := List.filter_eq_self.mpr holds
  have none : init.filter (! p ·) = [] := by simpa using holds
  rw [List.filter_append, List.filter_append, all, none, List.nil_append, List.append_assoc]
  match last, short with
  | [], _ => rfl
  | [x], _ => cases eq : p x <;> simp [eq]

theorem openComments_eq (cs : List Char) :
    (ofText cs).pieces.filter (·.OpenComment) =
      ((tiles read 0 cs).filter (·.piece.OpenComment)).map Tile.piece := by
  rw [pieces_ofText, List.filter_append, List.filter_map]
  simp [Tile.OpenComment, Function.comp_def]

theorem tiles_eq_nil_or_concat (cs : List Char) :
    tiles read 0 cs = [] ∨ ∃ init last, tiles read 0 cs = init ++ [last] ∧
      ∀ tile ∈ init, ¬tile.piece.OpenComment := by
  obtain nil | ⟨init, last, eq⟩ := List.eq_nil_or_concat' (tiles read 0 cs)
  · exact .inl nil
  · refine .inr ⟨init, last, eq, fun tile mem => ?_⟩
    have front : tile ∈ (tilesAfter read 0 0 cs).dropLast := by
      rw [show tilesAfter read 0 0 cs = init ++ [last] from eq, List.dropLast_concat]
      exact mem
    exact closed_of_mem_dropLast front

theorem openComments_length (cs : List Char) :
    ((tiles read 0 cs).filter (·.piece.OpenComment)).length ≤ 1 := by
  obtain nil | ⟨init, last, eq, closed⟩ := tiles_eq_nil_or_concat cs
  · simp [nil]
  · have none : init.filter (·.piece.OpenComment) = [] := by simpa using closed
    rw [eq, List.filter_append, none, List.nil_append]
    exact List.length_filter_le _ _

theorem errors_comments (cs : List Char) :
    (ofText cs).errors.filter (·.issue == .unterminatedComment) =
      ((tiles read 0 cs).filter (·.piece.OpenComment)).map fun t =>
        ⟨.unterminatedComment, t.span⟩ := by
  change ((tiles read 0 cs).filterMap error?).filter _ = _
  rw [List.filter_filterMap, ← List.filterMap_eq_map, List.filterMap_filter]
  apply List.filterMap_congr
  intro tile mem
  obtain ⟨c, more, what, text, -⟩ := Tile.exists_letters mem
  simpa using error?_comment what text

theorem errors_sorted (cs : List Char) :
    (ofText cs).errors.filter (·.issue != .unterminatedComment) ++
      (ofText cs).errors.filter (·.issue == .unterminatedComment) = (ofText cs).errors := by
  change ((tiles read 0 cs).filterMap error?).filter _ ++
    ((tiles read 0 cs).filterMap error?).filter _ = (tiles read 0 cs).filterMap error?
  obtain nil | ⟨init, last, eq, closed⟩ := tiles_eq_nil_or_concat cs
  · simp [nil]
  · have holds : ∀ e ∈ init.filterMap error?, (e.issue != .unterminatedComment) = true := by
      intro e mem
      obtain ⟨tile, mem, error⟩ := List.mem_filterMap.mp mem
      have inside : tile ∈ tiles read 0 cs := by
        rw [eq]
        exact List.mem_append_left _ mem
      obtain ⟨c, more, what, text, -⟩ := Tile.exists_letters inside
      exact error?_of_closed what text (closed tile mem) e error
    have short : ([last].filterMap error?).length ≤ 1 := List.length_filterMap_le _ _
    have sorted := filter_append_filter_not holds short
    rw [eq, List.filterMap_append]
    simpa [bne] using sorted

/-- What the lexical grammar says of the tokens of a source. -/
structure Grammatical (stream : TokenStream) (cs : List Char) : Prop where
  pieces : ∃ pieces, (∀ other, Lexing 0 cs other ↔ other = pieces) ∧
    stream.pieces = pieces ++ [⟨.token .endOfInput, Span.emptyAt (byteLength cs), []⟩]
  errors : stream.errors.map (fun e => (e.issue.kind, e.span)) =
    (stream.tokens.filter (·.kind.terminated? = some false)).map
        (fun t => (.unterminatedLiteral, t.span)) ++
      (stream.pieces.filter (·.OpenComment)).map fun p => (.unterminatedComment, p.span)
  one : (stream.pieces.filter (·.OpenComment)).length ≤ 1

theorem ofText_grammatical (cs : List Char) : (ofText cs).Grammatical cs := by
  have lexes := tilesAfter_lexing 0 0 cs
  simp only [byteLength, List.take_zero, List.drop_zero, Nat.add_zero] at lexes
  refine ⟨⟨_, fun other => ⟨fun other => other.unique lexes, ?_⟩, pieces_ofText cs⟩, ?_, ?_⟩
  · rintro rfl
    exact lexes
  · rw [← errors_sorted, List.map_append, errors_filter, tokens_unterminated, errors_comments,
      openComments_eq, List.map_map, List.map_map]
    rfl
  · rw [openComments_eq, List.length_map]
    exact openComments_length cs

end TokenStream

end UmkaSyntax
