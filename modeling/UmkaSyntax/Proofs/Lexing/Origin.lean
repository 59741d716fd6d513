import UmkaSyntax.Proofs.Lexing.Tiling

namespace UmkaSyntax

theorem byteLength_take_le (count : Nat) (cs : List Char) :
    byteLength (cs.take count) ≤ byteLength cs := by
  have whole := byteLength_append (cs.take count) (cs.drop count)
  rw [List.take_append_drop] at whole
  omega

theorem Tile.exists_read {α : Type} {read : Reader α} {offset skip : Nat} {cs : List Char}
    {tile : Tile α} (mem : tile ∈ tilesAfter read offset skip cs) :
    (∃ c more, tile.what = (read c more).1) ∧
      tile.span.start < tile.span.stop ∧ tile.span.stop ≤ offset + byteLength cs := by
  induction cs generalizing offset skip with
  | nil => simp [tilesAfter] at mem
  | cons c cs ih =>
      have later : ∀ skip, tile ∈ tilesAfter read (offset + c.utf8Size) skip cs →
          (∃ c more, tile.what = (read c more).1) ∧
            tile.span.start < tile.span.stop ∧ tile.span.stop ≤ offset + byteLength (c :: cs) := by
        intro skip mem
        obtain ⟨what, filled, inside⟩ := ih mem
        exact ⟨what, filled, by simp only [byteLength]; omega⟩
      cases skip with
      | succ skip => exact later skip mem
      | zero =>
          rcases List.mem_cons.mp mem with rfl | mem
          · have size := c.utf8Size_pos
            have inside := byteLength_take_le (read c cs).2 cs
            refine ⟨⟨c, cs, rfl⟩, ?_, ?_⟩
            · simp only [byteLength]
              omega
            · simp only [byteLength]
              omega
          · exact later _ mem

theorem Lexeme.read_ne_endOfInput (c : Char) (cs : List Char) :
    (read c cs).1 ≠ token .endOfInput := by
  have number : (number c cs).1 ≠ .endOfInput := by
    unfold number
    dsimp only
    repeat' split
    all_goals simp
  unfold read
  repeat' split
  all_goals first | (rename_i eq; rw [eq] at number; exact fun same => number (token.inj same)) | simp

namespace TokenStream

theorem exists_tile_of_mem_space {gap : List Trivia} {tiles : List (Tile Lexeme)} {s : Spaced}
    (mem : s ∈ (space gap tiles).1) :
    ∃ tile ∈ tiles, tile.what = .token s.token.kind ∧ tile.span = s.token.span := by
  induction tiles generalizing gap with
  | nil => simp [space] at mem
  | cons tile tiles ih =>
      have later : ∀ gap, s ∈ (space gap tiles).1 →
          ∃ other ∈ tile :: tiles, other.what = .token s.token.kind ∧ other.span = s.token.span := by
        intro gap mem
        obtain ⟨other, mem, eq⟩ := ih mem
        exact ⟨other, List.mem_cons_of_mem tile mem, eq⟩
      cases what : tile.what with
      | trivia kind closed =>
          simp only [space, what] at mem
          exact later _ mem
      | token kind =>
          simp only [space, what, List.mem_cons] at mem
          rcases mem with rfl | mem
          · exact ⟨tile, List.mem_cons_self, what, rfl⟩
          · exact later _ mem

theorem exists_spaced_of_mem_attach {isFirst : Bool} {last : List Trivia} {spaced : List Spaced}
    {t : Token} (mem : t ∈ attach isFirst last spaced) :
    ∃ s ∈ spaced, s.token.kind = t.kind ∧ s.token.span = t.span := by
  induction spaced generalizing isFirst with
  | nil => simp [attach] at mem
  | cons s more ih =>
      rcases List.mem_cons.mp mem with rfl | mem
      · exact ⟨s, List.mem_cons_self, rfl, rfl⟩
      · obtain ⟨other, mem, eq⟩ := ih mem
        exact ⟨other, List.mem_cons_of_mem s mem, eq⟩

theorem token_origin {cs : List Char} {t : Token} (mem : t ∈ (ofText cs).tokens) :
    t.kind ≠ .endOfInput ∧ t.span.start < t.span.stop ∧ t.span.stop ≤ byteLength cs := by
  obtain ⟨s, mem, kind, span⟩ := exists_spaced_of_mem_attach mem
  obtain ⟨tile, mem, what, place⟩ := exists_tile_of_mem_space mem
  obtain ⟨⟨c, more, eq⟩, filled, inside⟩ := Tile.exists_read mem
  rw [place, span] at filled inside
  rw [Nat.zero_add] at inside
  refine ⟨fun isEnd => ?_, filled, inside⟩
  rw [what, kind, isEnd] at eq
  exact Lexeme.read_ne_endOfInput c more eq.symm

theorem error_origin {cs : List Char} {e : LexicalError} (mem : e ∈ (ofText cs).errors) :
    e.span.start < byteLength cs := by
  obtain ⟨tile, tileMem, eq⟩ := List.mem_filterMap.mp mem
  obtain ⟨issue, -, rfl⟩ := Option.map_eq_some_iff.mp eq
  obtain ⟨-, filled, inside⟩ := Tile.exists_read tileMem
  rw [Nat.zero_add] at inside
  exact Nat.lt_of_lt_of_le filled inside

end TokenStream

end UmkaSyntax
