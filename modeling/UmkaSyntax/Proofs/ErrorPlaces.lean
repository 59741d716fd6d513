import UmkaSyntax.Diagnostic.OfError
import UmkaSyntax.Proofs.Layout
import UmkaSyntax.Proofs.Lexing.Longest
import UmkaSyntax.Proofs.Parsing.Blame
import UmkaSyntax.Proofs.Rendering
import UmkaSyntax.Proofs.Source.Lines
import UmkaSyntax.Proofs.Source.Place

namespace UmkaSyntax

theorem byteLength_blanks {cs : List Char} (blank : ∀ c ∈ cs, isBlank c = true) :
    byteLength cs = cs.length := by
  induction cs with
  | nil => rfl
  | cons c cs ih =>
      obtain ⟨first, rest⟩ := List.forall_mem_cons.mp blank
      have size : c.utf8Size = 1 := by
        simp only [isBlank, Bool.or_eq_true, beq_iff_eq] at first
        rcases first with rfl | rfl <;> rfl
      rw [byteLength, size, ih rest, List.length_cons, Nat.add_comm]

theorem byteLength_indent (line : List Char) :
    byteLength (line.take (runLength isBlank line)) = runLength isBlank line := by
  rw [byteLength_blanks fun _ => of_mem_take_runLength]
  exact List.length_take_of_le (runLength_le isBlank line)

theorem line_cut (before after : List Char) (p : Char → Bool) :
    let line := lastLine before ++ after
    let indent := runLength isBlank line
    let word := (line.drop indent).takeWhile p
    let start := byteLength before - byteLength (lastLine before)
    dropBytes? start (before ++ after) = some line ∧
      Stretch.In ⟨⟨start + indent, start + indent + byteLength word⟩, word⟩ (before ++ after) ∧
      dropBytes? (start + indent + byteLength word) (before ++ after) =
        some (line.drop (indent + word.length)) := by
  intro line indent word start
  obtain ⟨front, eq, -⟩ := append_lastLine before
  have size : byteLength before = byteLength front + byteLength (lastLine before) := by
    rw [← byteLength_append, ← eq]
  have start_eq : start = byteLength front := by
    simp only [start, size]
    omega
  have whole : before ++ after = front ++ line := by
    rw [← List.append_assoc, ← eq]
  have behind : line.drop (indent + word.length) = (line.drop indent).dropWhile p := by
    have split : line.drop indent = word ++ (line.drop indent).dropWhile p :=
      List.takeWhile_append_dropWhile.symm
    rw [← List.drop_drop]
    nth_rewrite 1 [split]
    exact List.drop_left
  have parts : front ++ line =
      front ++ line.take indent ++ word ++ line.drop (indent + word.length) := by
    rw [behind, List.append_assoc, List.append_assoc, List.takeWhile_append_dropWhile,
      List.take_append_drop]
  have place : start + indent = byteLength (front ++ line.take indent) := by
    rw [byteLength_append, byteLength_indent, start_eq]
  rw [whole, place]
  refine ⟨?_, ?_, ?_⟩
  · rw [start_eq]
    exact dropBytes?_append front line
  · exact ⟨_, _, parts, rfl⟩
  · rw [parts, ← byteLength_append]
    exact dropBytes?_append _ _

/-- Behind the opening quote of a literal, and in front of its closing quote if it has one. -/
structure Token.Encloses (t : Token) (span : Span) : Prop where
  opened : t.span.start < span.start
  inside : span.stop ≤ t.span.stop
  closed : t.kind.terminated? = some true → span.stop < t.span.stop

namespace LiteralParts

theorem mark_of_invalidEscape {flavor : Flavor} {c : Char} {cs : List Char}
    (invalid : (Segment.read flavor c cs).1 = .invalidEscape) : c = '\\' := by
  by_contra other
  revert invalid
  simp only [Segment.read, other, if_false]
  repeat' split
  all_goals simp

theorem mark_of_invalidFormat {flavor : Flavor} {c : Char} {cs : List Char}
    (invalid : (Segment.read flavor c cs).1 = .invalidFormat) : c = '%' := by
  by_contra other
  revert invalid
  simp only [Segment.read, other, false_and, if_false]
  repeat' split
  all_goals simp

theorem cut_quotes {terminated : Bool} {text : List Char}
    (filled : (cut terminated text).2.1 ≠ []) :
    0 < byteLength (cut terminated text).1 ∧
      (terminated = true → 0 < byteLength (cut terminated text).2.2) := by
  cases text with
  | nil => exact absurd rfl filled
  | cons opening rest =>
      have size := opening.utf8Size_pos
      cases terminated with
      | false => simp [cut, byteLength, size]
      | true =>
          obtain rfl | ⟨body, closing, rfl⟩ := List.eq_nil_or_concat' rest
          · exact absurd rfl filled
          · have last := closing.utf8Size_pos
            simp [cut, byteLength, size, last]

theorem body_tile {flavor : Flavor} {t : Token} {cs opening body closing : List Char}
    (own : t.own.In cs)
    (parts : cut (t.kind.terminated? == some true) t.text.toList = (opening, body, closing))
    {tile : Tile Segment}
    (mem : tile ∈ tiles (Segment.read flavor) (t.span.start + byteLength opening) body) :
    tile.stretch.In cs ∧ t.Encloses tile.span := by
  have whole := cut_append (t.kind.terminated? == some true) t.text.toList
  have quotes := @cut_quotes (t.kind.terminated? == some true) t.text.toList
  rw [parts] at whole quotes
  replace whole : opening ++ body ++ closing = t.text.toList := whole
  obtain ⟨left, right, text, place⟩ := own
  have laid := tiles_laid (Segment.read flavor) (t.span.start + byteLength opening) body
  have stretch := List.mem_map_of_mem (f := Tile.stretch) mem
  have filled : body ≠ [] := by
    rintro rfl
    simp [tiles, tilesAfter] at mem
  obtain ⟨opened, closed⟩ : 0 < byteLength opening ∧ (_ = true → 0 < byteLength closing) :=
    quotes filled
  obtain ⟨begins, ends⟩ := laid.bounds_of_mem stretch
  have length : t.span.stop =
      t.span.start + byteLength opening + byteLength body + byteLength closing := by
    have total : t.span.stop = t.span.start + byteLength t.text.toList := by
      simp only [Token.own] at place
      rw [place]
    rw [total, ← whole, byteLength_append, byteLength_append]
    omega
  -- Inside of the source, and between the quotes.
  constructor
  · have start : t.span.start + byteLength opening = byteLength (left ++ opening) := by
      rw [byteLength_append]
      exact congrArg (· + _) (congrArg Span.start place)
    have around : cs = left ++ opening ++
        spelled ((tiles (Segment.read flavor) (byteLength (left ++ opening)) body).map
          Tile.stretch) ++ (closing ++ right) := by
      rw [spelled_tiles, text, Token.own, ← whole]
      simp only [List.append_assoc]
    rw [start] at laid stretch
    exact laid.in_of_mem around stretch
  · simp only [Tile.stretch] at begins ends
    refine ⟨by omega, by omega, fun terminated => ?_⟩
    have some := closed (beq_iff_eq.mpr terminated)
    omega

theorem error_cases {flavor : Flavor} {t : Token} {cs : List Char} (own : t.own.In cs)
    {e : LexicalError} (mem : e ∈ (ofToken flavor t).errors) :
    (e.issue = .missingModule ∧ e.span = t.span) ∨
      ∃ mark more, Stretch.In ⟨e.span, mark :: more⟩ cs ∧ t.Encloses e.span ∧
        (mark = '\\' ∧ e.issue = .invalidEscape (String.ofList (mark :: more)) ∨
          mark = '%' ∧ e.issue = .invalidFormat (String.ofList (mark :: more))) := by
  rcases parts : cut (t.kind.terminated? == some true) t.text.toList with ⟨opening, body, closing⟩
  simp only [ofToken, parts, List.mem_append] at mem
  obtain inBody | atPath := mem
  · right
    obtain ⟨tile, tileMem, error⟩ := List.mem_filterMap.mp inBody
    obtain ⟨inside, encloses⟩ := body_tile own parts tileMem
    obtain ⟨c, more, what, letters, -⟩ := Tile.exists_letters tileMem
    rw [Tile.stretch, letters] at inside
    unfold error? at error
    rw [letters] at error
    split at error
    · rename_i invalid
      obtain rfl := Option.some.inj error
      exact ⟨c, _, inside, encloses, .inl ⟨mark_of_invalidEscape (what.symm.trans invalid), rfl⟩⟩
    · rename_i invalid
      obtain rfl := Option.some.inj error
      exact ⟨c, _, inside, encloses, .inr ⟨mark_of_invalidFormat (what.symm.trans invalid), rfl⟩⟩
    · cases error
  · left
    split at atPath
    · obtain rfl := List.mem_singleton.mp atPath
      exact ⟨rfl, rfl⟩
    · simp at atPath

end LiteralParts

namespace TokenStream

theorem own_in {cs : List Char} {t : Token} (mem : t ∈ (ofText cs).toList) : t.own.In cs := by
  have stretch : t.own ∈ (ofText cs).toList.flatMap Token.stretches :=
    List.mem_flatMap.mpr ⟨t, mem, by simp [Token.stretches]⟩
  exact spelled_ofText cs ▸ (ofText_laid cs).in_spelled stretch

theorem error_in {cs : List Char} {e : LexicalError} (mem : e ∈ (ofText cs).errors) :
    (∃ text, Stretch.In ⟨e.span, text⟩ cs) ∧
      (e.issue.kind = .unterminatedLiteral ∨ e.issue.kind = .unterminatedComment) := by
  obtain ⟨tile, tileMem, eq⟩ := List.mem_filterMap.mp mem
  obtain ⟨issue, found, rfl⟩ := Option.map_eq_some_iff.mp eq
  constructor
  · have stretch : tile.stretch ∈ (tiles Lexeme.read 0 cs).map Tile.stretch :=
      List.mem_map_of_mem tileMem
    have inside := (tiles_laid Lexeme.read 0 cs).in_spelled stretch
    rw [spelled_tiles] at inside
    exact ⟨tile.text, inside⟩
  · unfold issue? at found
    split at found
    · exact .inr (by rw [← Option.some.inj found]; rfl)
    · exact .inl (by rw [← Option.some.inj found]; rfl)
    · exact .inl (by rw [← Option.some.inj found]; rfl)
    · cases found

end TokenStream

theorem NodeKind.isLiteral_of_splits {kind : NodeKind} {k : TokenKind}
    (splits : kind.splits k = true) : k.isLiteral = true := by
  revert splits
  cases k <;> simp [NodeKind.splits, TokenKind.isLiteral, TokenKind.terminated?]

/-- An error of a parse is one of its lexer, lies in a literal, or is about a token. -/
theorem parse_error_origin {entry : Entry} {maxErrors : Nat} {source : String} {e : ParseError}
    (mem : e ∈ (parse entry maxErrors source).errors) :
    let stream := TokenStream.ofText source.toList
    (∃ f ∈ stream.errors, e = .lexical f) ∨
      (∃ t ∈ stream.tokens, t.kind.isLiteral = true ∧
        ∃ flavor, ∃ f ∈ (LiteralParts.ofToken flavor t).errors, e = .lexical f) ∨
      ∃ f : SyntaxError, f.found ∈ stream.toList ∧ e = .syntactic f := by
  intro stream
  have mem := ParseError.mem_sortByStart.mp (List.mem_of_mem_take mem)
  rcases List.mem_append.mp mem with own | parsed
  · obtain ⟨f, found, rfl⟩ := List.mem_map.mp own
    exact .inl ⟨f, found, rfl⟩
  · cases e with
    | syntactic f => exact .inr (.inr ⟨f, parseStream_concerns parsed, rfl⟩)
    | lexical f =>
        refine .inr (.inl ?_)
        obtain ⟨parts, tree, errors⟩ :=
          parseStream_ofText_tree True entry source.toList fun _ => trivial
        have inLeaves : f ∈ (Part.leavesOf parts).flatMap Part.errors := by
          rw [← Part.errorsOf_eq_leaves, errors]
          exact List.mem_filterMap.mpr ⟨_, parsed, rfl⟩
        obtain ⟨leaf, isLeaf, own⟩ := List.mem_flatMap.mp inLeaves
        have faithful := tree.faithful leaf isLeaf
        cases leaf with
        | literal label kind t =>
            have literal : t.kind.isLiteral = true := NodeKind.isLiteral_of_splits faithful
            have listed : t ∈ stream.toList := by
              rw [← tree.tokens, Part.tokensOf_eq_leaves]
              exact List.mem_flatMap.mpr ⟨_, isLeaf, by simp [Part.tokens]⟩
            rcases List.mem_append.mp listed with inside | last
            · exact ⟨t, inside, literal, kind.flavor, f, own, rfl⟩
            · rw [List.mem_singleton.mp last] at literal
              cases literal
        | token | keyword => simp [Part.errors] at own
        | node => exact faithful.elim

theorem parse_error_in {entry : Entry} {maxErrors : Nat} {source : String} {e : ParseError}
    (mem : e ∈ (parse entry maxErrors source).errors) :
    ∃ text, Stretch.In ⟨e.span, text⟩ source.toList := by
  obtain ⟨f, own, rfl⟩ | ⟨t, token, -, flavor, f, own, rfl⟩ | ⟨f, found, rfl⟩ :=
    parse_error_origin mem
  · exact (TokenStream.error_in own).1
  · have place := TokenStream.own_in (List.mem_append_left _ token)
    obtain ⟨-, span⟩ | ⟨mark, more, inside, -⟩ := LiteralParts.error_cases place own
    · exact ⟨t.text.toList, show Stretch.In ⟨f.span, _⟩ _ from span ▸ place⟩
    · exact ⟨mark :: more, inside⟩
  · exact ⟨_, TokenStream.own_in found⟩

/-- The error quotes the text at its span, which begins with the mark and lies inside of a literal
of the source. -/
def ParseError.Quotes (e : ParseError) (source : String) (mark : Char) (opening : String) : Prop :=
  (∃ text : String, slice? source.toList e.span = some text.toList ∧
    text.toList.head? = some mark ∧ e.message = opening ++ text ++ "'") ∧
  ∃ t ∈ (TokenStream.ofText source.toList).tokens, t.kind.isLiteral = true ∧ t.Encloses e.span

/-- The cuts that the diagnostic of an error makes: the text on both sides of the place, the line
that holds it, the first word of this line and what follows the word. -/
def Diagnosable (cs : List Char) (offset : Nat) : Prop :=
  ∃ before after, takeBytes? offset cs = some before ∧ dropBytes? offset cs = some after ∧
    let line := lastLine before ++ after
    let indent := runLength isBlank line
    let word := (line.drop indent).takeWhile isWordChar
    let start := offset - byteLength (lastLine before)
    let place : Span := ⟨start + indent, start + indent + byteLength word⟩
    dropBytes? start cs = some line ∧ slice? cs place = some word ∧
      dropBytes? place.stop cs = some (line.drop (indent + word.length)) ∧
      ∀ m, misspelling? cs offset = some m → m.span = place

theorem misspelling?_span {cs before after : List Char} {offset : Nat} {m : Misspelling}
    (left : takeBytes? offset cs = some before) (right : dropBytes? offset cs = some after)
    (found : misspelling? cs offset = some m) :
    let line := lastLine before ++ after
    let indent := runLength isBlank line
    let start := offset - byteLength (lastLine before) + indent
    m.span = ⟨start, start + byteLength ((line.drop indent).takeWhile isWordChar)⟩ := by
  simp only [misspelling?, left, right, Option.bind_eq_bind, Option.bind_some] at found
  obtain ⟨next, -, found⟩ := Option.bind_eq_some_iff.mp found
  split at found
  · obtain ⟨keyword, -, found⟩ := Option.bind_eq_some_iff.mp found
    rw [← Option.some.inj found]
  · cases found

theorem Stretch.In.diagnosable {s : Stretch} {cs : List Char} (inside : s.In cs) :
    Diagnosable cs s.span.start := by
  obtain ⟨left, right, whole, span⟩ := inside
  have eq : cs = left ++ (s.text ++ right) := by rw [whole, List.append_assoc]
  have start : s.span.start = byteLength left := by rw [span]
  rw [eq, start]
  have front := takeBytes?_append left (s.text ++ right)
  have back := dropBytes?_append left (s.text ++ right)
  obtain ⟨line, word, rest⟩ := line_cut left (s.text ++ right) isWordChar
  exact ⟨left, s.text ++ right, front, back, line, word.slice?, rest,
    fun m found => misspelling?_span front back found⟩

structure ParseError.Placed (e : ParseError) (source : String) : Prop where
  cuts : e.span.Cuts source
  escape : e.kind = .lexical .invalidEscape → e.Quotes source '\\' "Invalid escape sequence '"
  format : e.kind = .lexical .invalidFormat → e.Quotes source '%' "Invalid format sequence '"
  diagnosable : Diagnosable source.toList e.span.start

namespace ParseError

theorem placed_of_lexical {f : LexicalError} {source : String} {text : List Char}
    (inside : Stretch.In ⟨f.span, text⟩ source.toList) (escape : f.issue.kind ≠ .invalidEscape)
    (format : f.issue.kind ≠ .invalidFormat) : (ParseError.lexical f).Placed source where
  cuts := inside.cuts
  escape kind := absurd (ErrorKind.lexical.inj kind) escape
  format kind := absurd (ErrorKind.lexical.inj kind) format
  diagnosable := inside.diagnosable

theorem placed_of_syntactic {f : SyntaxError} {source : String}
    (inside : f.found.own.In source.toList) : (ParseError.syntactic f).Placed source := by
  have kind : ∀ k, (ParseError.syntactic f).kind ≠ .lexical k := by
    intro k
    simp only [ParseError.kind, SyntaxError.kind]
    repeat' split
    all_goals simp
  exact ⟨inside.cuts, fun eq => absurd eq (kind _), fun eq => absurd eq (kind _),
    inside.diagnosable⟩

theorem placed_of_literal {t : Token} {source : String}
    (mem : t ∈ (TokenStream.ofText source.toList).tokens) (literal : t.kind.isLiteral = true)
    {flavor : Flavor} {f : LexicalError} (own : f ∈ (LiteralParts.ofToken flavor t).errors) :
    (ParseError.lexical f).Placed source := by
  have place := TokenStream.own_in (List.mem_append_left _ mem)
  obtain ⟨issue, span⟩ | ⟨mark, more, inside, encloses, known⟩ := LiteralParts.error_cases place own
  · have inside : Stretch.In ⟨f.span, t.text.toList⟩ source.toList := by
      rw [span]
      exact place
    have kind : f.issue.kind = .missingModule := by rw [issue, LexicalIssue.kind]
    exact placed_of_lexical inside (by simp [kind]) (by simp [kind])
  · have slice : slice? source.toList f.span = some (String.ofList (mark :: more)).toList := by
      rw [String.toList_ofList]
      exact inside.slice?
    have head : (String.ofList (mark :: more)).toList.head? = some mark := by
      rw [String.toList_ofList]
      rfl
    obtain ⟨rfl, issue⟩ | ⟨rfl, issue⟩ := known
    · have other : (lexical f).kind ≠ .lexical .invalidFormat := by
        simp [kind, issue, LexicalIssue.kind]
      have message : (lexical f).message = _ := congrArg LexicalIssue.message issue
      exact ⟨inside.cuts, fun _ => ⟨⟨_, slice, head, message⟩, t, mem, literal, encloses⟩,
        fun eq => absurd eq other, inside.diagnosable⟩
    · have other : (lexical f).kind ≠ .lexical .invalidEscape := by
        simp [kind, issue, LexicalIssue.kind]
      have message : (lexical f).message = _ := congrArg LexicalIssue.message issue
      exact ⟨inside.cuts, fun eq => absurd eq other,
        fun _ => ⟨⟨_, slice, head, message⟩, t, mem, literal, encloses⟩, inside.diagnosable⟩

end ParseError

/-- The errors of a parse are sorted by where they start, and each one stands at a place where the
source can be cut. -/
theorem parse_places (entry : Entry) (maxErrors : Nat) (source : String) :
    (parse entry maxErrors source).errors.Pairwise (·.span.start ≤ ·.span.start) ∧
      ∀ e ∈ (parse entry maxErrors source).errors, e.Placed source := by
  refine ⟨(ParseError.sortByStart_pairwise _).sublist (List.take_sublist _ _), fun e mem => ?_⟩
  obtain ⟨f, own, rfl⟩ | ⟨t, token, literal, flavor, f, own, rfl⟩ | ⟨f, found, rfl⟩ :=
    parse_error_origin mem
  · obtain ⟨⟨text, inside⟩, kind⟩ := TokenStream.error_in own
    rcases kind with kind | kind <;>
      exact ParseError.placed_of_lexical inside (by simp [kind]) (by simp [kind])
  · exact ParseError.placed_of_literal token literal own
  · exact ParseError.placed_of_syntactic (TokenStream.own_in found)

end UmkaSyntax
