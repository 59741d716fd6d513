import UmkaSyntax.Proofs.Literal.Body

namespace UmkaSyntax

namespace LiteralParts

/-- The first token leads with the trivia on the left, the last one trails those on the right, and
there are no others. -/
def Dressed (lead trail : List Trivia) (tokens : List Token) : Prop :=
  ∀ before u after, tokens = before ++ u :: after →
    u.leading = (if before = [] then lead else []) ∧ u.trailing = if after = [] then trail else []

theorem dressed_cons {lead trail : List Trivia} {u : Token} {tokens : List Token} :
    Dressed lead trail (u :: tokens) ↔
      u.leading = lead ∧ u.trailing = (if tokens = [] then trail else []) ∧
        Dressed [] trail tokens := by
  constructor
  · intro dressed
    obtain ⟨leading, trailing⟩ := dressed [] u tokens rfl
    refine ⟨leading, trailing, fun before v after eq => ?_⟩
    have later := dressed (u :: before) v after (by rw [eq, List.cons_append])
    rw [if_neg (List.cons_ne_nil _ _)] at later
    rwa [ite_self]
  · rintro ⟨leading, trailing, dressed⟩ before v after eq
    cases before with
    | nil =>
        obtain ⟨rfl, rfl⟩ := List.cons.inj eq
        exact ⟨leading, trailing⟩
    | cons w before =>
        have later := dressed before v after (List.cons.inj eq).2
        rw [ite_self] at later
        rwa [if_neg (List.cons_ne_nil _ _)]

theorem dressed_nil (lead trail : List Trivia) : Dressed lead trail [] := by
  intro before u after eq
  cases before <;> cases eq

theorem trailLast_tokens_ne_nil (trail : List Trivia) (first : LiteralPiece)
    (more : List LiteralPiece) :
    (trailLast trail (first :: more)).flatMap LiteralPiece.tokens ≠ [] := by
  cases more <;> cases first <;> simp [trailLast, LiteralPiece.trailBy, LiteralPiece.tokens]

theorem dressed_trailLast {lead trail : List Trivia} {first : LiteralPiece}
    {more : List LiteralPiece} (head : Dressed lead [] first.tokens)
    (rest : ∀ p ∈ more, Dressed [] [] p.tokens) :
    Dressed lead trail ((trailLast trail (first :: more)).flatMap LiteralPiece.tokens) := by
  induction more generalizing first lead with
  | nil =>
      cases first <;>
        simp_all [trailLast, LiteralPiece.trailBy, LiteralPiece.tokens, dressed_cons, dressed_nil]
  | cons next more ih =>
      obtain ⟨here, later⟩ := List.forall_mem_cons.mp rest
      have dressed := ih here later
      have filled := trailLast_tokens_ne_nil trail next more
      cases first <;>
        simp_all [trailLast, LiteralPiece.tokens, dressed_cons]

theorem dressed_dress (t : Token) {first : LiteralPiece} {more : List LiteralPiece}
    (bare : ∀ p ∈ first :: more, ∀ u ∈ p.tokens, u.leading = [] ∧ u.trailing = []) :
    Dressed t.leading t.trailing ((dress t (first :: more)).flatMap LiteralPiece.tokens) := by
  have plain : ∀ p ∈ first :: more, Dressed [] [] p.tokens := by
    rintro p mem before u after eq
    have none := bare p mem u (by simp [eq])
    simpa using none
  obtain ⟨here, later⟩ := List.forall_mem_cons.mp plain
  rw [dress, List.modifyHead_cons]
  refine dressed_trailLast ?_ later
  cases first <;> simp_all [LiteralPiece.leadBy, LiteralPiece.tokens, dressed_cons]

theorem own_tokens {flavor : Flavor} {t : Token} {first : LiteralPiece} {more : List LiteralPiece}
    (pieces : (ofToken flavor t).pieces = dress t (first :: more))
    (bare : ∀ p ∈ first :: more, ∀ u ∈ p.tokens, u.leading = [] ∧ u.trailing = []) :
    (ofToken flavor t).tokens.map Token.own = (first :: more).flatMap LiteralPiece.stretches := by
  have dressed : (dress t (first :: more)).map (·.tokens.map Token.own) =
      (first :: more).map (·.tokens.map Token.own) := by
    refine map_dress ?_ ?_ t (first :: more)
    all_goals
      rintro trivia (u | ⟨name, suffix⟩) <;> rfl
  rw [tokens, pieces, List.map_flatMap, List.flatMap_def, dressed, ← List.flatMap_def]
  refine List.flatMap_congr fun p mem => ?_
  rw [LiteralPiece.stretches, List.map_eq_flatMap]
  refine List.flatMap_congr fun u inside => ?_
  rw [Token.stretches, (bare p mem u inside).1, (bare p mem u inside).2]
  rfl

inductive Marked (flavor : Flavor) (tile : Tile Segment) : List (TokenKind × Stretch) → Prop
  | text : tile.what = .text → tile.text ≠ [] → Marked flavor tile [(.literalText, tile.stretch)]
  | escape : tile.text ≠ [] → Marked flavor tile [(.escape, tile.stretch)]
  | format : flavor = .format → tile.text ≠ [] → Marked flavor tile [(.format, tile.stretch)]
  | module {name suffix : Stretch} : flavor = .path → name.text ≠ [] → suffix.text ≠ [] →
      Marked flavor tile [(.name, name), (.moduleSuffix, suffix)]

theorem Marked.what_of_text {flavor : Flavor} {tile : Tile Segment}
    {marks : List (TokenKind × Stretch)} (marked : Marked flavor tile marks)
    {mark : TokenKind × Stretch} (mem : mark ∈ marks) (isText : mark.1 = .literalText) :
    tile.what = .text := by
  cases marked with
  | text what => exact what
  | escape | format =>
      obtain rfl := List.mem_singleton.mp mem
      cases isText
  | module =>
      obtain rfl | rfl := by simpa using mem
      all_goals cases isText

theorem Marked.of_stands {flavor : Flavor} {tile : Tile Segment} {cs : List Char}
    (stands : Segment.Stands flavor cs tile.what tile.text) (sequence : tile.what.isText = false)
    (filled : tile.text ≠ []) : Marked flavor tile tile.marks := by
  obtain ⟨what, span, text⟩ := tile
  cases stands with
  | escape => exact .escape filled
  | format isFormat => exact .format isFormat filled
  | @module name rest path eq longest =>
      refine .module path ?_ ?_
      · change (name ++ ['.', 'u', 'm']).take name.length ≠ []
        rw [List.take_left]
        rintro rfl
        exact longest.holds
      · change (name ++ ['.', 'u', 'm']).drop name.length ≠ []
        rw [List.drop_left]
        exact List.cons_ne_nil _ _
  | invalidEscape => cases sequence
  | invalidFormat => cases sequence
  | name => cases sequence
  | letter => cases sequence

theorem joined_marked {flavor : Flavor} {t : Token} {body : List Char} {tile : Tile Segment}
    (mem : tile ∈ joinText (bodyTiles flavor t body)) : Marked flavor tile tile.marks := by
  have letters : ∀ tile ∈ bodyTiles flavor t body, tile.text ≠ [] := by
    intro tile mem
    obtain ⟨c, more, -, text, -⟩ := Tile.exists_letters mem
    rw [text]
    exact List.cons_ne_nil _ _
  obtain ⟨filled, what | ⟨sequence, mem⟩⟩ := joinText_tiles letters tile mem
  · rw [Tile.marks, Tile.sequence?, what]
    exact .text what filled
  · obtain ⟨c, more, what, text, -⟩ := Tile.exists_letters mem
    exact .of_stands (Segment.stands_iff.mpr ⟨what, text⟩) sequence filled

structure Splits (l : LiteralParts) (flavor : Flavor) (t : Token) : Prop where
  laid : Laid t.span.start (l.tokens.map Token.own) t.span.stop
  sliced : ∀ u ∈ l.tokens, slice? t.text.toList
    ⟨u.span.start - t.span.start, u.span.stop - t.span.start⟩ = some u.text.toList
  filled : ∀ u ∈ l.tokens, u.text ≠ ""
  quoted : ∃ opening inner closing, l.tokens = opening :: (inner ++ closing) ∧
    opening.kind = .quote ∧ opening.text.length = 1 ∧ (∀ u ∈ inner, u.kind ≠ .quote) ∧
    closing.map (fun u => (u.kind, u.text)) =
      if t.kind.terminated? = some true then [(.quote, "\"")] else []
  apart : l.tokens.IsChain fun u v => ¬(u.kind = .literalText ∧ v.kind = .literalText)
  formats : ∀ u ∈ l.tokens, u.kind = .format → flavor = .format
  modules : ∀ name suffix, .module name suffix ∈ l.pieces → flavor = .path
  dressed : Dressed t.leading t.trailing l.tokens

theorem joined_apart (flavor : Flavor) (t : Token) (body : List Char) :
    ((joinText (bodyTiles flavor t body)).map Tile.marks).flatten.IsChain
      fun a b => ¬(a.1 = .literalText ∧ b.1 = .literalText) := by
  have marked : ∀ tile ∈ joinText (bodyTiles flavor t body), Marked flavor tile tile.marks :=
    fun tile => joined_marked
  have filled : [] ∉ (joinText (bodyTiles flavor t body)).map Tile.marks := by
    intro mem
    obtain ⟨tile, joined, eq⟩ := List.mem_map.mp mem
    have nothing := marked tile joined
    rw [eq] at nothing
    cases nothing
  rw [List.isChain_flatten filled, List.forall_mem_map, List.isChain_map]
  constructor
  · intro tile joined
    have here := marked tile joined
    generalize tile.marks = marks at here
    cases here <;> simp
  · refine (joinText_chain _).imp_of_mem_imp fun left right inLeft inRight apart a last b head both => ?_
    exact apart ⟨(marked left inLeft).what_of_text (List.mem_of_getLast? last) both.1,
      (marked right inRight).what_of_text (List.mem_of_mem_head? head) both.2⟩

theorem map_mark_tokens (flavor : Flavor) {t : Token} {body : List Char} (has : t.HasBody body) :
    ∃ opening, (ofToken flavor t).tokens.map Token.mark =
      (.quote, ⟨⟨t.span.start, t.span.start + 1⟩, [opening]⟩) ::
        (((joinText (bodyTiles flavor t body)).map Tile.marks).flatten ++
          (closingStretches t body).map (.quote, ·)) := by
  obtain ⟨opening, -, eq⟩ := marks_ofToken flavor has
  refine ⟨opening, ?_⟩
  have closing : ((closingStretches t body).map Stretch.quoteMarks).flatten =
      (closingStretches t body).map (TokenKind.quote, ·) := by
    rw [List.flatten_eq_flatMap, List.flatMap_map, List.map_eq_flatMap]
    rfl
  rw [marks_tokens, eq, List.flatten_cons, List.flatten_append, closing]
  rfl

section
variable {flavor : Flavor} {t : Token} {body : List Char} (has : t.HasBody body)
include has

theorem marked_ofToken {p : LiteralPiece} (mem : p ∈ (ofToken flavor t).pieces) :
    (∃ s : Stretch, s.text ≠ [] ∧ p.marks = [(.quote, s)]) ∨ ∃ tile, Marked flavor tile p.marks := by
  obtain ⟨opening, -, eq⟩ := marks_ofToken flavor has
  have listed := List.mem_map_of_mem (f := LiteralPiece.marks) mem
  rw [eq, List.mem_cons, List.mem_append, List.mem_map, List.mem_map] at listed
  obtain eq | ⟨tile, joined, eq⟩ | ⟨s, closing, eq⟩ := listed
  · exact .inl ⟨_, List.cons_ne_nil _ _, eq⟩
  · exact .inr ⟨tile, eq ▸ joined_marked joined⟩
  · refine .inl ⟨s, ?_, eq.symm⟩
    unfold closingStretches at closing
    split at closing
    · cases closing
    · rename_i some
      obtain rfl := List.mem_singleton.mp closing
      exact some

theorem mark_ofToken {u : Token} (isToken : u ∈ (ofToken flavor t).tokens) :
    u.own.text ≠ [] ∧ (u.kind = .format → flavor = .format) := by
  obtain ⟨p, isPiece, inside⟩ := List.mem_flatMap.mp isToken
  have mark : (u.kind, u.own) ∈ p.marks := List.mem_map_of_mem (f := Token.mark) inside
  obtain ⟨s, filled, eq⟩ | ⟨tile, marked⟩ := marked_ofToken has isPiece
  · rw [eq, List.mem_singleton] at mark
    obtain ⟨kind, own⟩ := Prod.mk.inj mark
    rw [kind, own]
    exact ⟨filled, nofun⟩
  · generalize p.marks = marks at marked mark
    cases marked with
    | text what filled | escape filled =>
        obtain ⟨kind, own⟩ := Prod.mk.inj (List.mem_singleton.mp mark)
        rw [kind, own]
        exact ⟨filled, nofun⟩
    | format isFormat filled =>
        obtain ⟨kind, own⟩ := Prod.mk.inj (List.mem_singleton.mp mark)
        rw [own]
        exact ⟨filled, fun _ => isFormat⟩
    | module path first second =>
        simp only [List.mem_cons, List.not_mem_nil, or_false, Prod.mk.injEq] at mark
        obtain ⟨kind, own⟩ | ⟨kind, own⟩ := mark
        · rw [kind, own]
          exact ⟨first, nofun⟩
        · rw [kind, own]
          exact ⟨second, nofun⟩

theorem path_of_module {name suffix : Token}
    (isPiece : .module name suffix ∈ (ofToken flavor t).pieces) : flavor = .path := by
  have two : (LiteralPiece.marks (.module name suffix)).length = 2 := rfl
  obtain ⟨s, -, eq⟩ | ⟨tile, marked⟩ := marked_ofToken has isPiece
  · rw [eq] at two
    cases two
  · generalize LiteralPiece.marks (.module name suffix) = marks at marked two
    cases marked with
    | module path => exact path
    | text | escape | format => cases two

theorem quoted_ofToken : ∃ opening inner closing,
    (ofToken flavor t).tokens = opening :: (inner ++ closing) ∧
    opening.kind = .quote ∧ opening.text.length = 1 ∧ (∀ u ∈ inner, u.kind ≠ .quote) ∧
    closing.map (fun u => (u.kind, u.text)) =
      if t.kind.terminated? = some true then [(.quote, "\"")] else [] := by
  obtain ⟨letter, eq⟩ := map_mark_tokens flavor has
  obtain ⟨opening, rest, whole, first, eq⟩ := List.map_eq_cons_iff.mp eq
  obtain ⟨inner, closing, rfl, innerEq, closingEq⟩ := List.map_eq_append_iff.mp eq
  obtain ⟨kind, own⟩ := Prod.mk.inj first
  refine ⟨opening, inner, closing, whole, kind, ?_, ?_, ?_⟩
  · have letters : opening.text.toList = [letter] := congrArg Stretch.text own
    rw [← String.length_toList, letters]
    rfl
  · intro u mem isQuote
    have mark := List.mem_map_of_mem (f := Token.mark) mem
    rw [innerEq] at mark
    obtain ⟨marks, listed, inside⟩ := List.mem_flatten.mp mark
    obtain ⟨tile, joined, rfl⟩ := List.mem_map.mp listed
    have marked := joined_marked joined
    generalize tile.marks = marks at marked inside
    cases marked <;> simp [Token.mark, isQuote] at inside
  · have texts : closing.map (fun u => (u.kind, u.text)) =
        (closing.map Token.mark).map fun mark => (mark.1, String.ofList mark.2.text) := by
      rw [List.map_map]
      exact List.map_congr_left fun u _ => by simp [Token.mark, Token.own]
    rw [texts, closingEq]
    unfold closingStretches Token.closing
    split <;> rfl

theorem apart_ofToken : (ofToken flavor t).tokens.IsChain fun u v =>
    ¬(u.kind = .literalText ∧ v.kind = .literalText) := by
  obtain ⟨letter, eq⟩ := map_mark_tokens flavor has
  have chain : ((ofToken flavor t).tokens.map Token.mark).IsChain
      fun a b => ¬(a.1 = .literalText ∧ b.1 = .literalText) := by
    have inner := joined_apart flavor t body
    rw [eq, List.isChain_cons, List.isChain_append]
    refine ⟨fun _ _ => nofun, inner, ?_, fun a _ b head => ?_⟩
    · unfold closingStretches
      split <;> simp
    · obtain ⟨s, -, rfl⟩ := List.mem_map.mp (List.mem_of_mem_head? head)
      exact nofun
  exact (List.isChain_map Token.mark).mp chain

end

/-- Every literal of a source is taken apart without a loss, whatever its flavor. -/
theorem ofToken_splits {cs : List Char} {t : Token} (mem : t ∈ (TokenStream.ofText cs).toList)
    (literal : t.kind.isLiteral = true) (flavor : Flavor) : (ofToken flavor t).Splits flavor t := by
  obtain ⟨⟨body, has⟩, size⟩ := TokenStream.exists_body mem literal
  obtain ⟨first, more, pieces, bare, covers, spells⟩ := ofToken_pieces flavor t
  have own := own_tokens pieces bare
  have laid : Laid t.span.start ((ofToken flavor t).tokens.map Token.own) t.span.stop := by
    rw [own]
    refine covers (laid_cons.mpr ⟨?_, size.symm⟩)
    change t.span = ⟨t.span.start, t.span.start + byteLength t.text.toList⟩
    rw [← size]
  refine ⟨laid, fun u isToken => ?_, fun u isToken isEmpty => ?_, quoted_ofToken has,
    apart_ofToken has, fun u isToken => (mark_ofToken has isToken).2,
    fun name suffix => path_of_module has, ?_⟩
  · have slice := laid.slice?_of_mem (List.mem_map_of_mem isToken)
    rwa [own, spells] at slice
  · exact (mark_ofToken has isToken).1 (String.toList_eq_nil_iff.mpr isEmpty)
  · rw [tokens, pieces]
    exact dressed_dress t bare

/-- A literal that is left open behind a backslash. -/
def looseLiteral : Token where
  kind := .string false
  span := ⟨1, 7⟩
  text := "\"é%d\\"
  leading := [⟨.whitespace, ⟨0, 1⟩, " "⟩]
  trailing := []

theorem looseLiteral_splits :
    looseLiteral ∈ (TokenStream.ofText [' ', '"', 'é', '%', 'd', '\\']).toList ∧
      looseLiteral.kind.isLiteral = true ∧
      (ofToken .format looseLiteral).Splits .format looseLiteral := by
  have mem : looseLiteral ∈ (TokenStream.ofText [' ', '"', 'é', '%', 'd', '\\']).toList := by
    decide
  exact ⟨mem, rfl, ofToken_splits mem rfl .format⟩

end LiteralParts

end UmkaSyntax
