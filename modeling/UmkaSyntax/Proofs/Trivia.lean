import Mathlib.Data.List.Chain
import UmkaSyntax.Proofs.Lexing.Origin
import UmkaSyntax.Proofs.Source.Place

namespace UmkaSyntax

theorem Laid.between {start stop : Nat} {left gap right : List Stretch} {s t : Stretch}
    (laid : Laid start (left ++ s :: gap ++ t :: right) stop) :
    Laid s.span.stop gap t.span.start := by
  obtain ⟨middle, front, back⟩ := laid_append.mp laid
  obtain ⟨begin, -, inner⟩ := laid_append.mp front
  obtain ⟨first, gap⟩ := laid_cons.mp inner
  obtain ⟨second, -⟩ := laid_cons.mp back
  rwa [first, second]

theorem Token.extent_eq {t : Token} {start stop : Nat} (laid : Laid start t.stretches stop) :
    t.extent = ⟨start, stop⟩ := by
  obtain ⟨middle, before, rest⟩ := laid_append.mp laid
  obtain ⟨own, after⟩ := laid_cons.mp rest
  have own : t.span = ⟨middle, middle + byteLength t.own.text⟩ := own
  have begins : (t.leading.head?.map (·.span.start)).getD t.span.start = start := by
    cases leading : t.leading with
    | nil =>
        rw [leading] at before
        simpa [own] using (laid_nil.mp before).symm
    | cons first more =>
        rw [leading] at before
        exact congrArg Span.start (laid_cons.mp before).1
  have ends : (t.trailing.getLast?.map (·.span.stop)).getD t.span.stop = stop := by
    obtain trailing | ⟨init, last, trailing⟩ := List.eq_nil_or_concat t.trailing
    · rw [trailing] at after ⊢
      simpa [own] using laid_nil.mp after
    · rw [List.concat_eq_append] at trailing
      rw [trailing, List.map_append] at after
      obtain ⟨place, -, last'⟩ := laid_append.mp after
      obtain ⟨span, reaches⟩ := laid_cons.mp last'
      rw [trailing, List.getLast?_concat, Option.map_some, Option.getD_some]
      exact (congrArg Span.stop span).trans (laid_nil.mp reaches)
  rw [extent, begins, ends]

/-- Trivia between two neighbours never leads a newline or the end of the input, and never trails a
token in front of anything else. -/
def Token.OneSided (a b : Token) : Prop :=
  if b.kind = .newline ∨ b.kind = .endOfInput then b.leading = [] else a.trailing = []

namespace TokenStream

theorem attach_oneSided {last : List Trivia} {spaced : List Spaced} {stop : Token}
    (proper : ∀ s ∈ spaced, s.token.kind ≠ .endOfInput) (isEnd : stop.kind = .endOfInput)
    (bare : spaced ≠ [] → stop.leading = []) (isFirst : Bool) :
    (attach isFirst last spaced ++ [stop]).IsChain Token.OneSided := by
  induction spaced generalizing isFirst with
  | nil => exact List.isChain_singleton stop
  | cons s more ih =>
      have rest := ih (fun s mem => proper s (List.mem_cons_of_mem _ mem))
        (fun _ => bare (List.cons_ne_nil _ _)) false
      cases more with
      | nil =>
          refine List.isChain_cons_cons.mpr ⟨?_, List.isChain_singleton stop⟩
          rw [Token.OneSided, if_pos (.inr isEnd)]
          exact bare (List.cons_ne_nil _ _)
      | cons next later =>
          refine List.isChain_cons_cons.mpr ⟨?_, rest⟩
          have other : next.token.kind ≠ .endOfInput := proper next (by simp)
          by_cases newline : next.token.kind = .newline
          · simp [Token.OneSided, newline]
          · simp [Token.OneSided, newline, other, trailingGap]

theorem ofText_oneSided (cs : List Char) : (ofText cs).toList.IsChain Token.OneSided := by
  refine attach_oneSided (fun s mem => ?_) rfl (fun some => ?_) true
  · obtain ⟨tile, mem, what, -⟩ := exists_tile_of_mem_space mem
    obtain ⟨⟨c, more, eq⟩, -⟩ := Tile.exists_read mem
    intro isEnd
    rw [what, isEnd] at eq
    exact Lexeme.read_ne_endOfInput c more eq.symm
  · exact if_neg (by simpa using some)

structure Tiles (stream : TokenStream) (source : String) : Prop where
  ends : ∃ tokens last, stream.toList = tokens ++ [last] ∧ last.kind = .endOfInput ∧
    last.span = Span.emptyAt source.utf8ByteSize ∧ ∀ t ∈ tokens, t.kind ≠ .endOfInput
  covers : Laid 0 (stream.pieces.map Tile.stretch) source.utf8ByteSize
  sliced : ∀ p ∈ stream.pieces, slice? source.toList p.span = some p.text
  filled : ∀ p ∈ stream.pieces, p.span.start = p.span.stop ↔ p.what = .token .endOfInput
  first : ∀ t ∈ stream.toList.head?, t.extent.start = 0 ∧
    Laid 0 (t.leading.map Trivia.stretch) t.span.start
  last : ∀ t ∈ stream.toList.getLast?, t.extent.stop = source.utf8ByteSize
  /-- Neighbours are adjacent with their trivia, which fill the gap between them. -/
  between : ∀ before a b after, stream.toList = before ++ a :: b :: after →
    a.extent.stop = b.extent.start ∧ a.OneSided b ∧
      Laid a.span.stop ((a.trailing ++ b.leading).map Trivia.stretch) b.span.start

theorem filled_of_mem_pieces {cs : List Char} {p : Tile PieceKind} (mem : p ∈ (ofText cs).pieces) :
    p.span.start = p.span.stop ↔ p.what = .token .endOfInput := by
  rw [pieces_ofText] at mem
  obtain mem | mem := List.mem_append.mp mem
  · obtain ⟨tile, isTile, rfl⟩ := List.mem_map.mp mem
    obtain ⟨⟨c, more, what⟩, filled, -⟩ := Tile.exists_read isTile
    have other : tile.piece.what ≠ .token .endOfInput := by
      intro isEnd
      rw [Tile.piece, what] at isEnd
      cases read : (Lexeme.read c more).1 with
      | trivia => simp [read, Lexeme.pieceKind] at isEnd
      | token kind =>
          simp only [read, Lexeme.pieceKind, PieceKind.token.injEq] at isEnd
          exact Lexeme.read_ne_endOfInput c more (isEnd ▸ read)
    exact iff_of_false (Nat.ne_of_lt filled) other
  · obtain rfl := List.mem_singleton.mp mem
    exact iff_of_true rfl rfl

section
variable {stream : TokenStream} {stop : Nat}
  (laid : Laid 0 (stream.toList.flatMap Token.stretches) stop)
include laid

theorem between_of_laid {before after : List Token} {a b : Token}
    (split : stream.toList = before ++ a :: b :: after) :
    a.extent.stop = b.extent.start ∧
      Laid a.span.stop ((a.trailing ++ b.leading).map Trivia.stretch) b.span.start := by
  rw [split, List.flatMap_append, List.flatMap_cons, List.flatMap_cons] at laid
  constructor
  · obtain ⟨_, -, rest⟩ := laid_append.mp laid
    obtain ⟨_, own, rest⟩ := laid_append.mp rest
    obtain ⟨_, next, -⟩ := laid_append.mp rest
    rw [Token.extent_eq own, Token.extent_eq next]
  · have around : Laid 0 (before.flatMap Token.stretches ++ a.leading.map Trivia.stretch ++
        a.own :: (a.trailing ++ b.leading).map Trivia.stretch ++
        b.own :: (b.trailing.map Trivia.stretch ++ after.flatMap Token.stretches)) stop := by
      simpa only [Token.stretches, List.map_append, List.append_assoc, List.cons_append] using laid
    exact around.between

theorem head_of_laid {t : Token} (head : t ∈ stream.toList.head?) :
    t.extent.start = 0 ∧ Laid 0 (t.leading.map Trivia.stretch) t.span.start := by
  obtain ⟨more, eq⟩ := List.head?_eq_some_iff.mp head
  rw [eq, List.flatMap_cons] at laid
  obtain ⟨_, own, -⟩ := laid_append.mp laid
  obtain ⟨middle, leading, rest⟩ := laid_append.mp own
  have begins : t.span.start = middle := congrArg Span.start (laid_cons.mp rest).1
  rw [Token.extent_eq own, begins]
  exact ⟨rfl, leading⟩

theorem getLast_of_laid {t : Token} (last : t ∈ stream.toList.getLast?) : t.extent.stop = stop := by
  obtain ⟨init, eq⟩ := List.getLast?_eq_some_iff.mp last
  rw [eq, List.flatMap_append, List.flatMap_singleton] at laid
  obtain ⟨_, -, own⟩ := laid_append.mp laid
  rw [Token.extent_eq own]

end

/-- The tokens of a source and their trivia tile it. -/
theorem ofText_tiles (source : String) : (ofText source.toList).Tiles source := by
  have laid := ofText_laid source.toList
  have spells := spelled_ofText source.toList
  rw [← utf8ByteSize_eq_byteLength] at laid
  refine ⟨⟨_, _, rfl, rfl, ?_, fun t mem => (token_origin mem).1⟩, ?_, ?_,
    fun p mem => filled_of_mem_pieces mem, fun t mem => head_of_laid laid mem,
    fun t mem => getLast_of_laid laid mem,
    fun before a b after split => ?_⟩
  · rw [utf8ByteSize_eq_byteLength]
    rfl
  · rwa [map_stretch_pieces]
  · intro p mem
    have stretch : p.stretch ∈ (ofText source.toList).toList.flatMap Token.stretches := by
      rw [← map_stretch_pieces]
      exact List.mem_map_of_mem mem
    have inside : p.stretch.In source.toList := spells ▸ laid.in_spelled stretch
    exact inside.slice?
  · have oneSided := ofText_oneSided source.toList
    rw [split] at oneSided
    obtain ⟨-, neighbours, -⟩ := List.isChain_append.mp oneSided
    obtain ⟨adjacent, gap⟩ := between_of_laid laid split
    exact ⟨adjacent, (List.isChain_cons_cons.mp neighbours).1, gap⟩

end TokenStream

end UmkaSyntax
