import UmkaSyntax.Lexing.Stream
import UmkaSyntax.Proofs.Tree.Shift

/-!
Lexing one text behind another. A lexeme reads no further than the end of its line, unless it is a
block comment; so where a text ends with a newline of its own, the lexemes of the whole are those of
the two parts.
-/

namespace UmkaSyntax

theorem runLength_le (p : Char → Bool) (cs : List Char) : runLength p cs ≤ cs.length :=
  (List.takeWhile_prefix p).length_le

theorem runLength_line {p : Char → Bool} (stops : p '\n' = false) (line more : List Char) :
    runLength p (line ++ '\n' :: more) = runLength p line := by
  induction line with
  | nil => simp [runLength, stops]
  | cons c line ih =>
      simp only [runLength, List.cons_append, List.takeWhile_cons] at ih ⊢
      split
      · simp [ih]
      · rfl

namespace Lexeme

section Line
variable (line more : List Char)

theorem hexTail_line : hexTail (line ++ '\n' :: more) = hexTail line := by
  cases line with
  | nil => rfl
  | cons c line =>
      by_cases marks : c = 'x'
      · subst marks
        simp [hexTail, runLength_line (p := isHexDigit) rfl]
      · simp [hexTail, marks]

theorem fraction_line : fraction (line ++ '\n' :: more) = fraction line := by
  cases line with
  | nil => rfl
  | cons c line =>
      by_cases marks : c = '.'
      · subst marks
        simp [fraction, runLength_line (p := Char.isDigit) rfl]
      · simp [fraction, marks]

theorem fraction_le : fraction line ≤ line.length := by
  unfold fraction
  split
  · rename_i cs
    have digits := runLength_le Char.isDigit cs
    split
    · exact Nat.zero_le _
    · rename_i n eq
      rw [eq] at digits
      simpa using digits
  · exact Nat.zero_le _

theorem exponent_line : exponent (line ++ '\n' :: more) = exponent line := by
  cases line with
  | nil => rfl
  | cons c line =>
      have sign : (line ++ '\n' :: more).head? = some '-' ↔ line.head? = some '-' := by
        cases line <;> simp
      by_cases minus : line.head? = some '-'
      · obtain ⟨digits, rfl⟩ : ∃ digits, line = '-' :: digits := by
          cases line with
          | nil => simp at minus
          | cons d digits => exact ⟨digits, by simpa using minus⟩
        simp [exponent, runLength_line (p := Char.isDigit) rfl]
      · simp only [exponent, List.cons_append, sign, minus, if_false, List.drop_zero,
          runLength_line (p := Char.isDigit) rfl]

theorem number_line (c : Char) : number c (line ++ '\n' :: more) = number c line := by
  have whole := runLength_line (p := Char.isDigit) rfl line more
  simp only [number, whole, List.drop_append_of_le_length (runLength_le Char.isDigit line),
    hexTail_line, fraction_line, List.drop_append_of_le_length (fraction_le _), exponent_line]

theorem literalRest_line : literalRest (line ++ '\n' :: more) = literalRest line := by
  have body := runLength_line (p := fun c => c != '"' && c != '\n') rfl line more
  rw [literalRest, literalRest, body,
    List.drop_append_of_le_length (runLength_le (fun c => c != '"' && c != '\n') line)]
  cases line.drop (runLength (fun c => c != '"' && c != '\n') line) with
  | nil => rfl
  | cons c cs =>
      by_cases quote : c = '"'
      · simp [quote]
      · simp [quote]

theorem read_newline (cs : List Char) : read '\n' cs = (token .newline, 0) := by
  rfl

theorem punctuation_newline (c : Char) : punctuation c (some '\n') = punctuation c none := by
  unfold punctuation
  split <;> simp_all

theorem read_line {c : Char} (noComment : ¬(c = '/' ∧ line.head? = some '*')) :
    read c (line ++ '\n' :: more) = read c line := by
  have slash : (line ++ '\n' :: more).head? = some '/' ↔ line.head? = some '/' := by
    cases line <;> simp
  have star : (line ++ '\n' :: more).head? = some '*' ↔ line.head? = some '*' := by
    cases line <;> simp
  have next : punctuation c (line ++ '\n' :: more).head? = punctuation c line.head? := by
    cases line with
    | nil => exact punctuation_newline c
    | cons d line => rfl
  simp only [read, slash, star, next, noComment, if_false, number_line, literalRest_line,
    runLength_line (p := isSpace) rfl, runLength_line (p := continuesName) rfl,
    runLength_line (p := (· != '\n')) rfl]

end Line

theorem read_comment (cs : List Char) :
    read '/' ('*' :: cs) = (trivia .blockComment (commentRest cs).1, (commentRest cs).2 + 1) := rfl

theorem commentRest_cons {c : Char} {cs : List Char}
    (isOpen : ¬(c = '*' ∧ cs.head? = some '/')) :
    commentRest (c :: cs) = ((commentRest cs).1, (commentRest cs).2 + 1) := by
  rw [commentRest, if_neg isOpen]

theorem commentRest_append (cs more : List Char) :
    commentRest (cs ++ more) = commentRest cs ∨ commentRest cs = (false, cs.length) := by
  induction cs with
  | nil => exact .inr rfl
  | cons c cs ih =>
      cases cs with
      | nil => exact .inr (by simp [commentRest])
      | cons d cs =>
          by_cases closes : c = '*' ∧ d = '/'
          · obtain ⟨rfl, rfl⟩ := closes
            exact .inl rfl
          · have isOpen : ∀ tail : List Char, ¬(c = '*' ∧ (d :: tail).head? = some '/') := by
              simpa using closes
            rw [List.cons_append] at ih
            rw [List.cons_append, List.cons_append, commentRest_cons (isOpen _),
              commentRest_cons (isOpen _)]
            rcases ih with same | endless
            · exact .inl (by rw [same])
            · exact .inr (by rw [endless]; rfl)

/-- Where a text ends with a newline, a lexeme is the same whatever follows the text, or it is a
comment that takes the whole rest. -/
theorem read_append (more : List Char) {c : Char} {cs : List Char}
    (newline : (c :: cs).getLast? = some '\n') :
    read c (cs ++ more) = read c cs ∨
      (read c cs).2 = cs.length ∧ (read c cs).1 = trivia .blockComment false := by
  rcases List.eq_nil_or_concat' cs with rfl | ⟨line, last, rfl⟩
  · obtain rfl : c = '\n' := by simpa using newline
    exact .inl rfl
  · obtain rfl : last = '\n' := by
      rw [← List.cons_append, List.getLast?_concat] at newline
      exact Option.some.inj newline
    by_cases comment : c = '/' ∧ line.head? = some '*'
    · obtain ⟨rfl, star⟩ := comment
      obtain ⟨body, rfl⟩ := List.head?_eq_some_iff.mp star
      simp only [List.cons_append, read_comment]
      rcases commentRest_append (body ++ ['\n']) more with same | endless
      · exact .inl (by rw [same])
      · exact .inr (by simp [endless])
    · refine .inl ?_
      rw [List.append_assoc, List.cons_append, List.nil_append]
      exact (read_line line more comment).trans (read_line line [] comment).symm

theorem commentRest_newline (cs : List Char) :
    commentRest (cs ++ ['\n']) = commentRest cs ∨
      commentRest (cs ++ ['\n']) = (false, cs.length + 1) := by
  induction cs with
  | nil => exact .inr rfl
  | cons c cs ih =>
      have closer : (cs ++ ['\n']).head? = some '/' ↔ cs.head? = some '/' := by cases cs <;> simp
      by_cases closes : c = '*' ∧ cs.head? = some '/'
      · rw [List.cons_append, commentRest, if_pos (by rwa [closer]), commentRest, if_pos closes]
        exact .inl rfl
      · rw [List.cons_append, commentRest_cons (by rwa [closer]), commentRest_cons closes]
        rcases ih with same | endless
        · exact .inl (by rw [same])
        · exact .inr (by rw [endless]; rfl)

theorem read_newline_last (c : Char) (cs : List Char) :
    read c (cs ++ ['\n']) = read c cs ∨ (read c (cs ++ ['\n'])).2 = cs.length + 1 := by
  by_cases comment : c = '/' ∧ cs.head? = some '*'
  · obtain ⟨rfl, star⟩ := comment
    obtain ⟨body, rfl⟩ := List.head?_eq_some_iff.mp star
    simp only [List.cons_append, read_comment]
    rcases commentRest_newline body with same | endless
    · exact .inl (by rw [same])
    · exact .inr (by simp [endless])
  · exact .inl (read_line cs [] comment)

theorem eq_newline_of_read {c : Char} {cs : List Char}
    (newline : (read c cs).1 = token .newline) : c = '\n' := by
  by_contra other
  revert newline
  unfold read
  simp only [other, if_false]
  repeat' split
  all_goals simp
  unfold number
  dsimp only
  repeat' split
  all_goals simp

end Lexeme

/-- The last lexeme of the text is a newline. -/
def EndsLine (cs : List Char) : Prop :=
  (tiles Lexeme.read 0 cs).getLast?.map Tile.what = some (.token .newline)

instance (cs : List Char) : Decidable (EndsLine cs) :=
  inferInstanceAs (Decidable (_ = _))

theorem tilesAfter_eq_nil {α : Type} {read : Reader α} {offset skip : Nat} {cs : List Char} :
    tilesAfter read offset skip cs = [] ↔ cs.length ≤ skip := by
  induction cs generalizing offset skip with
  | nil => simp [tilesAfter]
  | cons c cs ih =>
      cases skip with
      | zero => simp [tilesAfter]
      | succ skip => simp [tilesAfter, ih]

theorem tilesAfter_append {offset skip : Nat} {cs : List Char} (more : List Char)
    (newline : (tilesAfter Lexeme.read offset skip cs).getLast?.map Tile.what =
      some (.token .newline)) :
    cs.getLast? = some '\n' ∧
      tilesAfter Lexeme.read offset skip (cs ++ more) =
        tilesAfter Lexeme.read offset skip cs ++
          tiles Lexeme.read (offset + byteLength cs) more := by
  induction cs generalizing offset skip with
  | nil => simp [tilesAfter] at newline
  | cons c cs ih =>
      have next : offset + byteLength (c :: cs) = offset + c.utf8Size + byteLength cs := by
        rw [byteLength, Nat.add_assoc]
      cases skip with
      | succ skip =>
          obtain ⟨last, rest⟩ := ih newline
          exact ⟨by rw [List.getLast?_cons, last]; rfl, by rw [next]; exact rest⟩
      | zero =>
          simp only [tilesAfter] at newline
          cases after : tilesAfter Lexeme.read (offset + c.utf8Size) (Lexeme.read c cs).2 cs with
          | nil =>
              -- The newline is this very tile.
              rw [after] at newline
              obtain rfl := Lexeme.eq_newline_of_read (Option.some.inj newline)
              obtain rfl : cs = [] := by
                simpa [Lexeme.read_newline] using tilesAfter_eq_nil.mp after
              exact ⟨rfl, rfl⟩
          | cons tile tiles =>
              rw [after, List.getLast?_cons_cons, ← after] at newline
              obtain ⟨last, rest⟩ := ih newline
              have ends : (c :: cs).getLast? = some '\n' := by rw [List.getLast?_cons, last]; rfl
              refine ⟨ends, ?_⟩
              have inside : (Lexeme.read c cs).2 < cs.length := by
                by_contra reaches
                rw [tilesAfter_eq_nil.mpr (Nat.le_of_not_lt reaches)] at after
                exact List.cons_ne_nil _ _ after.symm
              have same : Lexeme.read c (cs ++ more) = Lexeme.read c cs := by
                refine (Lexeme.read_append more ends).resolve_right fun endless => ?_
                omega
              have text : (cs ++ more).take (Lexeme.read c cs).2 = cs.take (Lexeme.read c cs).2 :=
                List.take_append_of_le_length (Nat.le_of_lt inside)
              simp only [List.cons_append, tilesAfter, same, text, rest, next]

theorem EndsLine.tiles_append {cs : List Char} (ends : EndsLine cs) (more : List Char) :
    tiles Lexeme.read 0 (cs ++ more) =
      tiles Lexeme.read 0 cs ++ tiles Lexeme.read (byteLength cs) more := by
  have whole := (tilesAfter_append more ends).2
  rwa [Nat.zero_add] at whole

theorem tilesAfter_newline {offset skip : Nat} {cs : List Char}
    (newline : (tilesAfter Lexeme.read offset skip (cs ++ ['\n'])).getLast?.map Tile.what =
      some (.token .newline)) :
    ∃ tile, tile.what = .token .newline ∧
      tilesAfter Lexeme.read offset skip (cs ++ ['\n']) =
        tilesAfter Lexeme.read offset skip cs ++ [tile] := by
  induction cs generalizing offset skip with
  | nil =>
      cases skip with
      | zero => exact ⟨_, rfl, rfl⟩
      | succ skip => simp [tilesAfter] at newline
  | cons c cs ih =>
      cases skip with
      | succ skip => exact ih newline
      | zero =>
          rw [List.cons_append] at newline ⊢
          simp only [tilesAfter] at newline
          cases after : tilesAfter Lexeme.read (offset + c.utf8Size)
              (Lexeme.read c (cs ++ ['\n'])).2 (cs ++ ['\n']) with
          | nil =>
              rw [after] at newline
              obtain rfl := Lexeme.eq_newline_of_read (Option.some.inj newline)
              have none := tilesAfter_eq_nil.mp after
              simp [Lexeme.read_newline] at none
          | cons tile tiles =>
              rw [after, List.getLast?_cons_cons, ← after] at newline
              obtain ⟨last, what, rest⟩ := ih newline
              have inside : (Lexeme.read c (cs ++ ['\n'])).2 < cs.length + 1 := by
                by_contra reaches
                rw [tilesAfter_eq_nil.mpr (by simpa using Nat.le_of_not_lt reaches)] at after
                exact List.cons_ne_nil _ _ after.symm
              have same : Lexeme.read c (cs ++ ['\n']) = Lexeme.read c cs :=
                (Lexeme.read_newline_last c cs).resolve_right fun endless => by omega
              rw [same] at inside rest
              have text : (cs ++ ['\n']).take (Lexeme.read c cs).2 = cs.take (Lexeme.read c cs).2 :=
                List.take_append_of_le_length (Nat.le_of_lt_succ inside)
              exact ⟨last, what, by simp only [tilesAfter, same, text, rest, List.cons_append]⟩

namespace TokenStream

theorem space_append (gap : List Trivia) (left right : List (Tile Lexeme)) :
    space gap (left ++ right) =
      ((space gap left).1 ++ (space (space gap left).2 right).1,
        (space (space gap left).2 right).2) := by
  induction left generalizing gap with
  | nil => simp [space]
  | cons tile left ih =>
      cases what : tile.what with
      | trivia kind closed => simp [space, what, ih]
      | token kind => simp [space, what, ih]

theorem space_newline (gap : List Trivia) {tiles : List (Tile Lexeme)}
    (newline : tiles.getLast?.map Tile.what = some (.token .newline)) :
    (space gap tiles).2 = [] ∧
      ∃ init last, (space gap tiles).1 = init ++ [last] ∧ last.token.kind = .newline := by
  obtain ⟨tile, last, what⟩ := Option.map_eq_some_iff.mp newline
  obtain ⟨init, rfl⟩ := List.getLast?_eq_some_iff.mp last
  simp only [space_append, space, what]
  exact ⟨trivial, _, _, rfl, rfl⟩

theorem attach_append (isFirst : Bool) (last : List Trivia) (left right : List Spaced) :
    attach isFirst last (left ++ right) =
      attach isFirst (trailingGap last right) left ++ attach (isFirst && left.isEmpty) last right := by
  induction left generalizing isFirst with
  | nil => simp [attach]
  | cons s left ih =>
      have next : trailingGap last (left ++ right) = trailingGap (trailingGap last right) left := by
        cases left <;> rfl
      simp [attach, ih, next]

def Spaced.shift (k : Nat) (s : Spaced) : Spaced := ⟨s.gap.map (Trivia.shift k), s.token.shift k⟩

theorem space_shift (k : Nat) (gap : List Trivia) (tiles : List (Tile Lexeme)) :
    space (gap.map (Trivia.shift k)) (tiles.map (Tile.shift k)) =
      ((space gap tiles).1.map (Spaced.shift k), (space gap tiles).2.map (Trivia.shift k)) := by
  induction tiles generalizing gap with
  | nil => rfl
  | cons tile tiles ih =>
      cases what : tile.what with
      | trivia kind closed =>
          have next := ih (gap ++ [⟨kind, tile.span, String.ofList tile.text⟩])
          rw [List.map_append] at next
          simp only [List.map_cons, space, Tile.shift, what]
          exact next
      | token kind =>
          have next := ih []
          rw [List.map_nil] at next
          simp only [List.map_cons, space, Tile.shift, what, next]
          rfl

theorem trailingGap_shift (k : Nat) (last : List Trivia) (spaced : List Spaced) :
    trailingGap (last.map (Trivia.shift k)) (spaced.map (Spaced.shift k)) =
      (trailingGap last spaced).map (Trivia.shift k) := by
  cases spaced with
  | nil => rfl
  | cons next more =>
      simp only [List.map_cons, trailingGap, Spaced.shift, Token.shift]
      split <;> rfl

theorem attach_shift (k : Nat) (isFirst : Bool) (last : List Trivia) (spaced : List Spaced) :
    attach isFirst (last.map (Trivia.shift k)) (spaced.map (Spaced.shift k)) =
      (attach isFirst last spaced).map (Token.shift k) := by
  induction spaced generalizing isFirst with
  | nil => rfl
  | cons s more ih =>
      simp only [List.map_cons, attach, trailingGap_shift, ih]
      congr 1
      simp only [Spaced.shift, Token.shift, Token.mk.injEq, true_and, and_true]
      rw [apply_ite (List.map (Trivia.shift k)), List.map_nil]
      rfl

theorem kinds_attach (isFirst : Bool) (last : List Trivia) (spaced : List Spaced) :
    (attach isFirst last spaced).map (·.kind) = spaced.map (·.token.kind) := by
  induction spaced generalizing isFirst with
  | nil => rfl
  | cons s more ih => simp [attach, ih]

theorem error?_shift (k : Nat) (tile : Tile Lexeme) :
    error? (tile.shift k) = (error? tile).map (LexicalError.shift k) := by
  simp [error?, Tile.shift, LexicalError.shift, Function.comp_def]

abbrev spacedText (cs : List Char) : List Spaced × List Trivia :=
  space [] (tiles Lexeme.read 0 cs)

theorem spacedText_append {cs : List Char} (ends : EndsLine cs) (more : List Char) :
    spacedText (cs ++ more) =
      ((spacedText cs).1 ++ (spacedText more).1.map (Spaced.shift (byteLength cs)),
        (spacedText more).2.map (Trivia.shift (byteLength cs))) := by
  have places := tiles_shift Lexeme.read (byteLength cs) 0 more
  have gaps := space_shift (byteLength cs) [] (tiles Lexeme.read 0 more)
  rw [Nat.zero_add] at places
  rw [List.map_nil] at gaps
  rw [spacedText, ends.tiles_append, space_append, (space_newline [] ends).1, places, gaps]

/-- The trivia that a newline in front of the text takes from it. -/
def gapBefore (cs : List Char) : List Trivia :=
  trailingGap (spacedText cs).2 (spacedText cs).1

/-- The tokens of the text, where only at the front of a source a newline leads trivia. -/
def tokensOf (isFirst : Bool) (cs : List Char) : List Token :=
  attach isFirst (spacedText cs).2 (spacedText cs).1

abbrev tokensBehind (cs : List Char) : List Token := tokensOf false cs

theorem tokensBehind_eq {cs : List Char} {t : Token} (first : (ofText cs).tokens.head? = some t)
    (other : t.kind ≠ .newline) : tokensBehind cs = (ofText cs).tokens ∧ gapBefore cs = [] := by
  simp only [tokensOf, gapBefore, ofText] at first ⊢
  cases spaced : (space [] (tiles Lexeme.read 0 cs)).1 with
  | nil => simp [spaced, attach] at first
  | cons s more =>
      obtain rfl : _ = t := by simpa [spaced, attach] using first
      exact ⟨by simp [attach, show s.token.kind ≠ .newline from other],
        by simp [trailingGap, show s.token.kind ≠ .newline from other]⟩

/-- The tokens of a line and of the text behind it. Only the trivia of the newline between them can
depend on that text. -/
theorem tokensOf_append (isFirst : Bool) {cs : List Char} (ends : EndsLine cs) (more : List Char) :
    ∃ init newline, tokensOf isFirst cs = init ++ [newline] ∧ newline.kind = .newline ∧
      newline.trailing = [] ∧
      tokensOf isFirst (cs ++ more) =
        init ++ { newline with trailing := (gapBefore more).map (Trivia.shift (byteLength cs)) } ::
          (tokensBehind more).map (Token.shift (byteLength cs)) := by
  obtain ⟨noGap, before, last, spaced, newline⟩ := space_newline [] ends
  have tokens : ∀ gap, attach isFirst gap (before ++ [last]) =
      attach isFirst last.gap before ++
        [{ last.token with
            leading := if isFirst && before.isEmpty then last.gap else [], trailing := gap }] := by
    intro gap
    rw [attach_append]
    simp [attach, trailingGap, newline]
  have alone : tokensOf isFirst cs = attach isFirst [] (before ++ [last]) := by
    rw [← noGap, ← spaced]
    rfl
  have whole : tokensOf isFirst (cs ++ more) =
      attach isFirst ((gapBefore more).map (Trivia.shift (byteLength cs))) (before ++ [last]) ++
        (tokensBehind more).map (Token.shift (byteLength cs)) := by
    have eq := spacedText_append ends more
    have filled : (before ++ [last]).isEmpty = false := by cases before <;> rfl
    simp only [tokensOf, eq, spaced]
    rw [attach_append, trailingGap_shift, filled, Bool.and_false, attach_shift]
    rfl
  refine ⟨attach isFirst last.gap before, _, alone.trans (tokens []), newline, rfl, ?_⟩
  rw [whole, tokens, List.append_assoc]
  rfl

theorem ofText_append {cs : List Char} (ends : EndsLine cs) (more : List Char) :
    ∃ init newline, (ofText cs).tokens = init ++ [newline] ∧ newline.kind = .newline ∧
      newline.trailing = [] ∧
      (ofText (cs ++ more)).tokens =
        init ++ { newline with trailing := (gapBefore more).map (Trivia.shift (byteLength cs)) } ::
          (tokensBehind more).map (Token.shift (byteLength cs)) :=
  tokensOf_append true ends more

theorem kinds_newline {cs : List Char} (ends : EndsLine (cs ++ ['\n'])) :
    (ofText (cs ++ ['\n'])).tokens.map (·.kind) = (ofText cs).tokens.map (·.kind) ++ [.newline] := by
  obtain ⟨tile, what, cut⟩ := tilesAfter_newline ends
  have spaced : (spacedText (cs ++ ['\n'])).1.map (·.token.kind) =
      (spacedText cs).1.map (·.token.kind) ++ [.newline] := by
    have eq : tiles Lexeme.read 0 (cs ++ ['\n']) = tiles Lexeme.read 0 cs ++ [tile] := cut
    rw [spacedText, eq, space_append]
    simp [space, what, Token.bare]
  have kinds : ∀ cs, (ofText cs).tokens.map (·.kind) = (spacedText cs).1.map (·.token.kind) :=
    fun cs => kinds_attach true _ _
  rw [kinds, kinds, spaced]

theorem gapBefore_append {cs : List Char} (ends : EndsLine cs) (more : List Char) :
    gapBefore (cs ++ more) = gapBefore cs := by
  obtain ⟨-, before, last, spaced, -⟩ := space_newline [] ends
  rw [gapBefore, gapBefore, spacedText_append ends, spaced]
  cases before <;> rfl

theorem endOfInput_eq {cs : List Char} (filled : (ofText cs).tokens ≠ []) :
    (ofText cs).endOfInput = Token.bare .endOfInput (Span.emptyAt (byteLength cs)) "" := by
  have some : (spacedText cs).1.isEmpty = false := by
    refine Bool.eq_false_iff.mpr fun empty => filled ?_
    simp only [ofText, List.isEmpty_iff.mp empty, attach]
  simp only [ofText, some, Bool.false_eq_true, if_false]
  rfl

theorem endOfInput_append {cs more : List Char} (ends : EndsLine cs)
    (filled : (ofText more).tokens ≠ []) :
    (ofText (cs ++ more)).endOfInput = (ofText more).endOfInput.shift (byteLength cs) := by
  obtain ⟨init, newline, -, -, -, whole⟩ := ofText_append ends more
  rw [endOfInput_eq filled, endOfInput_eq (by simp [whole]), byteLength_append, Nat.add_comm]
  rfl

theorem errors_append {cs : List Char} (ends : EndsLine cs) (more : List Char) :
    (ofText (cs ++ more)).errors =
      (ofText cs).errors ++ (ofText more).errors.map (LexicalError.shift (byteLength cs)) := by
  have behind := tiles_shift Lexeme.read (byteLength cs) 0 more
  rw [Nat.zero_add] at behind
  simp only [ofText, ends.tiles_append, behind, List.filterMap_append, List.filterMap_map,
    List.map_filterMap]
  congr 2
  funext tile
  exact error?_shift _ tile

end TokenStream

end UmkaSyntax
