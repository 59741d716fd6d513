import UmkaSyntax.Literal.Split
import UmkaSyntax.Proofs.Lexing.Tiling

namespace UmkaSyntax

namespace LiteralPiece

def stretches (p : LiteralPiece) : List Stretch := p.tokens.flatMap Token.stretches

theorem stretches_leadBy (trivia : List Trivia) {p : LiteralPiece}
    (bare : ∀ t ∈ p.tokens, t.leading = []) :
    (p.leadBy trivia).stretches = trivia.map Trivia.stretch ++ p.stretches := by
  cases p with
  | token t => simp_all [leadBy, stretches, tokens, Token.stretches, Token.own]
  | module name suffix => simp_all [leadBy, stretches, tokens, Token.stretches, Token.own]

theorem stretches_trailBy (trivia : List Trivia) {p : LiteralPiece}
    (bare : ∀ t ∈ p.tokens, t.trailing = []) :
    (p.trailBy trivia).stretches = p.stretches ++ trivia.map Trivia.stretch := by
  cases p with
  | token t => simp_all [trailBy, stretches, tokens, Token.stretches, Token.own]
  | module name suffix => simp_all [trailBy, stretches, tokens, Token.stretches, Token.own]

theorem trailing_leadBy {trivia : List Trivia} {p : LiteralPiece}
    (bare : ∀ t ∈ p.tokens, t.trailing = []) : ∀ t ∈ (p.leadBy trivia).tokens, t.trailing = [] := by
  cases p with
  | token t => simpa [leadBy, tokens] using bare
  | module name suffix => simpa [leadBy, tokens] using bare

end LiteralPiece

namespace LiteralParts

def tokens (l : LiteralParts) : List Token := l.pieces.flatMap LiteralPiece.tokens

theorem stretches_tokens (l : LiteralParts) :
    l.tokens.flatMap Token.stretches = l.pieces.flatMap LiteralPiece.stretches := by
  simp only [tokens, List.flatMap_assoc]
  rfl

theorem joinText_laid {start stop : Nat} {segments : List (Tile Segment)}
    (laid : Laid start (segments.map Tile.stretch) stop) :
    Laid start ((joinText segments).map Tile.stretch) stop := by
  induction segments generalizing start with
  | nil => exact laid
  | cons tile segments ih =>
      obtain ⟨span, rest⟩ := laid_cons.mp laid
      have joined := ih rest
      simp only [Tile.stretch] at span rest joined
      rw [joinText]
      split
      · split
        · rename_i first text more eq
          rw [eq] at joined
          obtain ⟨next, rest⟩ := laid_cons.mp joined
          obtain rfl : first = ⟨start + byteLength tile.text,
            start + byteLength tile.text + byteLength text⟩ := next
          refine laid_cons.mpr ⟨?_, ?_⟩
          · simp [Tile.stretch, span, Span.cover, byteLength_append]
            omega
          · simpa [Tile.stretch, byteLength_append, Nat.add_assoc] using rest
        · exact laid_cons.mpr ⟨span, joined⟩
      · exact laid_cons.mpr ⟨span, joined⟩

theorem spelled_joinText (segments : List (Tile Segment)) :
    spelled ((joinText segments).map Tile.stretch) = spelled (segments.map Tile.stretch) := by
  induction segments with
  | nil => rfl
  | cons tile segments ih =>
      rw [joinText]
      split
      · split
        · rename_i first text more eq
          rw [eq] at ih
          simp only [List.map_cons, spelled_cons, Tile.stretch] at ih ⊢
          rw [List.append_assoc, ih]
        · simp [Tile.stretch, ih]
      · simp [Tile.stretch, ih]

theorem piece_bare (tile : Tile Segment) :
    ∀ t ∈ (piece tile).tokens, t.leading = [] ∧ t.trailing = [] := by
  unfold piece
  split <;> simp [LiteralPiece.tokens, bareToken, Token.bare]

theorem piece_laid {start stop : Nat} {tile : Tile Segment}
    (laid : Laid start [tile.stretch] stop) : Laid start (piece tile).stretches stop := by
  obtain ⟨span, rfl⟩ := laid_cons.mp laid
  simp only [Tile.stretch] at span ⊢
  unfold piece
  split
  case h_3 nameLength what =>
    have whole := congrArg byteLength (List.take_append_drop nameLength tile.text)
    rw [byteLength_append] at whole
    simp [LiteralPiece.stretches, LiteralPiece.tokens, Token.stretches, Token.own, Token.bare,
      List.splitAt_eq, laid_cons, span]
    omega
  all_goals
    simp [LiteralPiece.stretches, LiteralPiece.tokens, Token.stretches, Token.own, bareToken,
      Token.bare, laid_cons, span]

theorem spelled_piece (tile : Tile Segment) : spelled (piece tile).stretches = tile.text := by
  unfold piece
  split <;>
    simp [LiteralPiece.stretches, LiteralPiece.tokens, Token.stretches, Token.own, bareToken,
      Token.bare, List.splitAt_eq]

theorem pieces_laid {start stop : Nat} {segments : List (Tile Segment)}
    (laid : Laid start (segments.map Tile.stretch) stop) :
    Laid start ((segments.map piece).flatMap LiteralPiece.stretches) stop := by
  induction segments generalizing start with
  | nil => exact laid
  | cons tile segments ih =>
      obtain ⟨middle, first, rest⟩ := (@laid_append _ _ [tile.stretch] _).mp laid
      exact laid_append.mpr ⟨middle, piece_laid first, ih rest⟩

theorem spelled_pieces (segments : List (Tile Segment)) :
    spelled ((segments.map piece).flatMap LiteralPiece.stretches) =
      spelled (segments.map Tile.stretch) := by
  induction segments with
  | nil => rfl
  | cons tile segments ih => simp [spelled_piece, Tile.stretch, ih]

section
variable {β : Type} {f : LiteralPiece → β}
  (trail : ∀ (trivia : List Trivia) (p : LiteralPiece), f (p.trailBy trivia) = f p)
include trail

theorem map_trailLast (trivia : List Trivia) (pieces : List LiteralPiece) :
    (trailLast trivia pieces).map f = pieces.map f := by
  fun_induction trailLast trivia pieces with
  | case1 => rfl
  | case2 last => rw [List.map_singleton, trail, List.map_singleton]
  | case3 piece more several ih => rw [List.map_cons, ih, List.map_cons]

theorem map_dress (lead : ∀ (trivia : List Trivia) (p : LiteralPiece), f (p.leadBy trivia) = f p)
    (token : Token) (pieces : List LiteralPiece) : (dress token pieces).map f = pieces.map f := by
  rw [dress, map_trailLast trail]
  cases pieces with
  | nil => rfl
  | cons first more => rw [List.modifyHead_cons, List.map_cons, lead, List.map_cons]

end

theorem cut_append (terminated : Bool) (text : List Char) :
    (cut terminated text).1 ++ (cut terminated text).2.1 ++ (cut terminated text).2.2 = text := by
  cases text with
  | nil => rfl
  | cons opening rest =>
      cases terminated with
      | false => simp [cut]
      | true =>
          rcases List.eq_nil_or_concat rest with rfl | ⟨body, closing, rfl⟩
          · rfl
          · simp [cut]

theorem stretches_trailLast (trivia : List Trivia) {pieces : List LiteralPiece}
    (nonempty : pieces ≠ []) (bare : ∀ p ∈ pieces, ∀ t ∈ p.tokens, t.trailing = []) :
    (trailLast trivia pieces).flatMap LiteralPiece.stretches =
      pieces.flatMap LiteralPiece.stretches ++ trivia.map Trivia.stretch := by
  fun_induction trailLast trivia pieces with
  | case1 => contradiction
  | case2 last =>
      simpa using LiteralPiece.stretches_trailBy trivia (bare last (by simp))
  | case3 piece more rest ih =>
      rw [List.flatMap_cons, ih rest fun p mem => bare p (by simp [mem]), List.flatMap_cons,
        List.append_assoc]

theorem stretches_dress (token : Token) {first : LiteralPiece} {more : List LiteralPiece}
    (bare : ∀ p ∈ first :: more, ∀ t ∈ p.tokens, t.leading = [] ∧ t.trailing = []) :
    (dress token (first :: more)).flatMap LiteralPiece.stretches =
      token.leading.map Trivia.stretch ++ (first :: more).flatMap LiteralPiece.stretches ++
        token.trailing.map Trivia.stretch := by
  have trailing : ∀ p ∈ first.leadBy token.leading :: more, ∀ t ∈ p.tokens, t.trailing = [] := by
    intro p mem
    rcases List.mem_cons.mp mem with rfl | mem
    · exact LiteralPiece.trailing_leadBy fun t inside => (bare first (by simp) t inside).2
    · exact fun t inside => (bare p (by simp [mem]) t inside).2
  rw [dress, List.modifyHead_cons, stretches_trailLast _ (List.cons_ne_nil _ _) trailing,
    List.flatMap_cons,
    LiteralPiece.stretches_leadBy _ fun t inside => (bare first (by simp) t inside).1]
  simp

theorem ofToken_pieces (flavor : Flavor) (token : Token) :
    ∃ first more, (ofToken flavor token).pieces = dress token (first :: more) ∧
      (∀ p ∈ first :: more, ∀ t ∈ p.tokens, t.leading = [] ∧ t.trailing = []) ∧
      (∀ {start stop : Nat}, Laid start [token.own] stop →
        Laid start ((first :: more).flatMap LiteralPiece.stretches) stop) ∧
      spelled ((first :: more).flatMap LiteralPiece.stretches) = token.text.toList := by
  have whole := cut_append (token.kind.terminated? == some true) token.text.toList
  rcases split : cut (token.kind.terminated? == some true) token.text.toList with
    ⟨opening, body, closing⟩
  rw [split] at whole
  -- The text is an opening quote, a body in segments and perhaps a closing quote.
  let bodyStart := token.span.start + byteLength opening
  let segments := tiles (Segment.read flavor) bodyStart body
  let quotes := if closing.isEmpty then [] else [quote (bodyStart + byteLength body) closing]
  have quotes_laid : Laid (bodyStart + byteLength body) (quotes.flatMap LiteralPiece.stretches)
      (bodyStart + byteLength body + byteLength closing) := by
    cases closing <;>
      simp [quotes, quote, LiteralPiece.stretches, LiteralPiece.tokens, Token.stretches, Token.own,
        Token.bare, laid_cons, byteLength]
  have spelled_quotes : spelled (quotes.flatMap LiteralPiece.stretches) = closing := by
    cases closing <;>
      simp [quotes, quote, LiteralPiece.stretches, LiteralPiece.tokens, Token.stretches, Token.own,
        Token.bare]
  have inner_laid := pieces_laid (joinText_laid (tiles_laid (Segment.read flavor) bodyStart body))
  refine ⟨quote token.span.start opening, (joinText segments).map piece ++ quotes, ?_, ?_, ?_, ?_⟩
  · simp [ofToken, split, segments, quotes, bodyStart]
  · intro p mem
    simp only [List.mem_cons, List.mem_append, List.mem_map] at mem
    rcases mem with rfl | ⟨tile, -, rfl⟩ | mem
    · simp [quote, LiteralPiece.tokens, Token.bare]
    · exact piece_bare tile
    · by_cases empty : closing.isEmpty <;> simp [quotes, empty] at mem
      subst mem
      simp [quote, LiteralPiece.tokens, Token.bare]
  · intro start stop laid
    obtain ⟨span, rfl⟩ := laid_cons.mp laid
    simp only [Token.own] at span
    have begins : token.span.start = start := by rw [span]
    rw [List.flatMap_cons, List.flatMap_append, laid_append]
    refine ⟨bodyStart, ?_, laid_append.mpr ⟨_, inner_laid, ?_⟩⟩
    · simp [quote, LiteralPiece.stretches, LiteralPiece.tokens, Token.stretches, Token.own,
        Token.bare, laid_cons, bodyStart, begins]
    · have stop_eq : start + byteLength token.own.text =
          bodyStart + byteLength body + byteLength closing := by
        simp only [Token.own, ← whole, byteLength_append, bodyStart, begins]
        omega
      rw [stop_eq]
      exact quotes_laid
  · rw [List.flatMap_cons, List.flatMap_append, spelled_append, spelled_append, spelled_quotes,
      spelled_pieces, spelled_joinText, spelled_tiles, ← whole]
    simp [quote, LiteralPiece.stretches, LiteralPiece.tokens, Token.stretches, Token.own, Token.bare]

theorem ofToken_laid (flavor : Flavor) {token : Token} {start stop : Nat}
    (laid : Laid start token.stretches stop) :
    Laid start ((ofToken flavor token).tokens.flatMap Token.stretches) stop := by
  have found := ofToken_pieces flavor token
  generalize ofToken flavor token = literal at found ⊢
  obtain ⟨first, more, pieces, bare, covers, -⟩ := found
  rw [stretches_tokens, pieces, stretches_dress token bare]
  obtain ⟨a, leading, rest⟩ := laid_append.mp laid
  obtain ⟨b, own, trailing⟩ := (@laid_append _ _ [token.own] _).mp rest
  exact laid_append.mpr ⟨b, laid_append.mpr ⟨a, leading, covers own⟩, trailing⟩

theorem spelled_ofToken (flavor : Flavor) (token : Token) :
    spelled ((ofToken flavor token).tokens.flatMap Token.stretches) =
      spelled token.stretches := by
  obtain ⟨first, more, pieces, bare, -, spells⟩ := ofToken_pieces flavor token
  rw [stretches_tokens, pieces, stretches_dress token bare, spelled_append, spelled_append, spells]
  simp [Token.stretches, Token.own]

end LiteralParts

end UmkaSyntax
