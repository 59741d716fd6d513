import UmkaSyntax.Diagnostic.Report
import UmkaSyntax.Proofs.ErrorPlaces
import UmkaSyntax.Proofs.Source.Lines

namespace UmkaSyntax

def declarationWords : List String := ["import", "const", "var", "type", "fn"]

theorem intendedKeyword?_of_mem {word : String} (mem : word ∈ declarationWords) :
    intendedKeyword? word = none := by
  revert word
  decide +kernel

theorem length_of_intendedKeyword? {word : List Char} {keyword : String}
    (found : intendedKeyword? (String.ofList word) = some keyword) : 3 ≤ word.length := by
  rw [intendedKeyword?, String.length_ofList] at found
  split at found
  · cases found
  · omega

structure FirstWord (line indent word after : List Char) : Prop where
  whole : line = indent ++ word ++ after
  blank : ∀ c ∈ indent, isBlank c = true
  starts : ∀ c, (word ++ after).head? = some c → isBlank c = false
  letters : ∀ c ∈ word, isWordChar c = true
  stops : ∀ c, after.head? = some c → isWordChar c = false

def OpensDeclaration (after : List Char) : Prop :=
  ∃ gap next tail, after = gap ++ next :: tail ∧ (∀ c ∈ gap, isBlank c = true) ∧
    canFollowKeyword next = true

theorem prefix_of_single {line rest text more : List Char} (single : '\n' ∉ line)
    (ends : rest = [] ∨ rest.head? = some '\n') (eq : line ++ rest = text ++ more)
    (inside : '\n' ∉ text) : ∃ tail, line = text ++ tail := by
  have first := firstLine_append_of_single single ends
  have all : ∀ c ∈ text, (c != '\n') = true := fun c mem => by
    simpa using fun same : c = '\n' => inside (same ▸ mem)
  rw [eq, firstLine, List.takeWhile_append_of_pos all] at first
  exact ⟨_, first.symm⟩

theorem newline_not_mem_of_blank {cs : List Char} (blank : ∀ c ∈ cs, isBlank c = true) : '\n' ∉ cs :=
  fun mem => absurd (blank _ mem) (by decide)

theorem newline_not_mem_of_letters {cs : List Char} (letters : ∀ c ∈ cs, isWordChar c = true) :
    '\n' ∉ cs :=
  fun mem => absurd (letters _ mem) (by decide +kernel)

theorem head?_dropWhile {p : Char → Bool} {cs : List Char} {c : Char}
    (head : (cs.dropWhile p).head? = some c) : p c = false := by
  have stops := List.head?_dropWhile_not p cs
  rw [head] at stops
  simpa using stops

theorem exists_firstWord {text : List Char} {next : Char} :
    let indent := text.take (runLength isBlank text)
    let word := (text.drop (runLength isBlank text)).takeWhile isWordChar
    ((text.drop (runLength isBlank text + word.length)).dropWhile isBlank).head? = some next →
    canFollowKeyword next = true →
    ∃ behind, FirstWord text indent word behind ∧
      ∃ gap tail, behind = gap ++ next :: tail ∧ ∀ c ∈ gap, isBlank c = true := by
  intro indent word head follows
  have bare := drop_runLength isBlank text
  have parted : text.dropWhile isBlank = word ++ (text.dropWhile isBlank).dropWhile isWordChar := by
    simp only [word, bare, List.takeWhile_append_dropWhile]
  have behind : text.drop (runLength isBlank text + word.length) =
      (text.dropWhile isBlank).dropWhile isWordChar := by
    rw [← List.drop_drop, bare]
    nth_rewrite 1 [parted]
    exact List.drop_left
  rw [behind] at head
  obtain ⟨tail, last⟩ := List.head?_eq_some_iff.mp head
  have spaced : (text.dropWhile isBlank).dropWhile isWordChar =
      ((text.dropWhile isBlank).dropWhile isWordChar).takeWhile isBlank ++ next :: tail := by
    rw [← last, List.takeWhile_append_dropWhile]
  refine ⟨_, ⟨?_, fun c => of_mem_take_runLength, fun c first => ?_, fun c => List.mem_takeWhile_imp,
    fun c => head?_dropWhile⟩, _, tail, spaced, fun c => List.mem_takeWhile_imp⟩
  · rw [List.append_assoc, ← parted, ← bare, List.take_append_drop]
  · rw [← parted] at first
    exact head?_dropWhile first

theorem FirstWord.of_line {line rest indent word gap tail : List Char} {next : Char}
    (first : FirstWord (line ++ rest) indent word (gap ++ next :: tail)) (single : '\n' ∉ line)
    (ends : rest = [] ∨ rest.head? = some '\n') (blank : ∀ c ∈ gap, isBlank c = true)
    (follows : canFollowKeyword next = true) :
    ∃ tail, FirstWord line indent word (gap ++ next :: tail) := by
  have newline : next ≠ '\n' := by
    rintro rfl
    exact absurd follows (by decide +kernel)
  have whole : line ++ rest = (indent ++ word ++ gap ++ [next]) ++ tail := by
    rw [first.whole]
    simp
  have inside : '\n' ∉ indent ++ word ++ gap ++ [next] := by
    simp only [List.mem_append, List.mem_singleton, not_or]
    exact ⟨⟨⟨newline_not_mem_of_blank first.blank, newline_not_mem_of_letters first.letters⟩,
      newline_not_mem_of_blank blank⟩, newline.symm⟩
  obtain ⟨tail', eq⟩ := prefix_of_single single ends whole inside
  have head : ∀ tail, (gap ++ next :: tail).head? = (gap ++ [next]).head? := by
    intro tail
    cases gap <;> rfl
  refine ⟨tail', by rw [eq]; simp, first.blank, fun c starts => first.starts c ?_, first.letters,
    fun c stops => first.stops c ?_⟩
  · rw [List.head?_append, head] at starts ⊢
    exact starts
  · rw [head] at stops ⊢
    exact stops

theorem misspelling?_spec {before after : List Char} {m : Misspelling}
    (found : misspelling? (before ++ after) (byteLength before) = some m) :
    ∃ front line rest indent word behind, IsLine (before ++ after) front line rest ∧
      before = front ++ lastLine before ∧ line = lastLine before ++ firstLine after ∧
      FirstWord line indent word behind ∧ OpensDeclaration behind ∧
      m.span = ⟨byteLength (front ++ indent), byteLength (front ++ indent ++ word)⟩ ∧
      m.span.start ≤ byteLength before ∧ intendedKeyword? (String.ofList word) = some m.keyword := by
  obtain ⟨front, rest, left, right, isLine⟩ := exists_isLine before after
  have span := misspelling?_span (takeBytes?_append before after) (dropBytes?_append before after) found
  simp only [misspelling?, takeBytes?_append, dropBytes?_append, Option.bind_eq_bind,
    Option.bind_some] at found
  obtain ⟨next, ahead, found⟩ := Option.bind_eq_some_iff.mp found
  split at found
  next fits =>
    obtain ⟨keyword, intended, found⟩ := Option.bind_eq_some_iff.mp found
    obtain rfl := Option.some.inj found
    obtain ⟨behind, first, gap, tail, rfl, blank⟩ := exists_firstWord ahead fits.2
    have whole : lastLine before ++ after = lastLine before ++ firstLine after ++ rest := by
      nth_rewrite 1 [right]
      rw [List.append_assoc]
    nth_rewrite 1 [whole] at first
    obtain ⟨tail, first⟩ := first.of_line isLine.single isLine.ends blank fits.2
    have size : byteLength before = byteLength front + byteLength (lastLine before) := by
      rw [← byteLength_append, ← left]
    refine ⟨front, _, rest, _, _, _, isLine, left, rfl, first, ⟨gap, next, tail, rfl, blank, fits.2⟩, ?_,
      fits.1, intended⟩
    simp only [byteLength_append, byteLength_indent, Span.mk.injEq]
    omega
  next => cases found

theorem Misspelling.mendedLine_eq {m : Misspelling} {cs front line rest indent word behind : List Char}
    (isLine : IsLine cs front line rest) (first : FirstWord line indent word behind)
    (span : m.span = ⟨byteLength (front ++ indent), byteLength (front ++ indent ++ word)⟩) :
    m.mendedLine cs = indent ++ m.keyword.toList ++ withoutReturn behind := by
  have before : cs = (front ++ indent) ++ (word ++ behind ++ rest) := by
    rw [isLine.whole, first.whole]
    simp
  have after : cs = (front ++ indent ++ word) ++ (behind ++ rest) := by
    rw [before]
    simp
  have single := isLine.single
  rw [first.whole, List.mem_append, List.mem_append, not_or, not_or] at single
  have left : takeBytes? m.span.start cs = some (front ++ indent) := by
    rw [span]
    nth_rewrite 1 [before]
    exact takeBytes?_append _ _
  have right : dropBytes? m.span.stop cs = some (behind ++ rest) := by
    rw [span]
    nth_rewrite 1 [after]
    exact dropBytes?_append _ _
  simp only [mendedLine, left, right, Option.map_some, Option.getD_some]
  rw [lastLine_append_of_single single.1.1 isLine.starts,
    firstLine_append_of_single single.2 isLine.ends]

theorem ParseError.kind_of_misspelling {cs : List Char} {e : ParseError} {m : Misspelling}
    (found : (diagnose cs e).misspelling = some m) :
    e.kind = .syntactic ∧ misspelling? cs e.span.start = some m := by
  unfold diagnose at found
  split at found
  next syntactic =>
    refine ⟨syntactic, ?_⟩
    split at found
    next other eq =>
      rw [eq]
      exact found
    next => cases found
  next => cases found

theorem span_diagnose (cs : List Char) (e : ParseError) : (diagnose cs e).span = e.span := by
  unfold diagnose
  repeat' split
  all_goals rfl

/-- A suggestion belongs to a syntax error. It points at the first word of the line where the error
starts, which is not behind the error, has three letters or more, is no keyword of a declaration
itself and stands in front of something that can follow one. In the report the mended line is the
line with the keyword in the place of the word. -/
theorem misspelling_spec (entry : Entry) (maxErrors : Nat) (source name : String)
    (small : source.utf8ByteSize < UInt32.size - 1) {e : ParseError}
    (mem : e ∈ (parse entry maxErrors source).errors) {m : Misspelling}
    (found : (diagnose source.toList e).misspelling = some m) :
    let located := LocatedDiagnostic.ofDiagnostic (SourceFile.ofText name source.toList)
      (diagnose source.toList e)
    e.kind = .syntactic ∧
    ∃ front line rest indent word behind, IsLine source.toList front line rest ∧
      byteLength front ≤ e.span.start ∧ e.span.start ≤ byteLength (front ++ line) ∧
      FirstWord line indent word behind ∧
      m.span = ⟨byteLength (front ++ indent), byteLength (front ++ indent ++ word)⟩ ∧
      m.span.start ≤ e.span.start ∧
      3 ≤ word.length ∧ String.ofList word ∉ declarationWords ∧ OpensDeclaration behind ∧
      ∃ before after, located.sourceLine = String.ofList (before ++ word ++ after) ∧
        located.mendedLine = some (String.ofList (before ++ m.keyword.toList ++ after)) := by
  intro located
  obtain ⟨syntactic, found'⟩ := ParseError.kind_of_misspelling found
  -- Where the error starts the source is cut in two; the line of the word is the one around the
  -- cut.
  obtain ⟨text, left, more, whole, place⟩ := parse_error_in mem
  have start : e.span.start = byteLength left := congrArg Span.start place
  rw [List.append_assoc] at whole
  rw [whole, start] at found'
  obtain ⟨front, line, rest, indent, word, behind, isLine, split, line_eq, first, opens, span, le,
    intended⟩ := misspelling?_spec found'
  rw [← whole] at isLine
  have size : byteLength left = byteLength front + byteLength (lastLine left) := by
    rw [← byteLength_append, ← split]
  have column : byteLength (lastLine left) ≤ byteLength line := by
    rw [line_eq, byteLength_append]
    exact Nat.le_add_right _ _
  refine ⟨syntactic, front, line, rest, indent, word, behind, isLine, by omega, ?_, first, span,
    start ▸ le, length_of_intendedKeyword? intended, fun keyword => ?_, opens, indent,
    withoutReturn behind, ?_, ?_⟩
  · rw [byteLength_append]
    omega
  · rw [intendedKeyword?_of_mem keyword] at intended
    cases intended
  · have fits : byteLength source.toList < UInt32.size := by
      rw [← utf8ByteSize_eq_byteLength]
      exact Nat.lt_of_lt_of_le small (by decide)
    have filled : behind ≠ [] := by
      obtain ⟨gap, next, tail, rfl, -⟩ := opens
      simp
    have position := isLine.position fits column
    rw [← size, ← start, ← span_diagnose source.toList e] at position
    have shown : located.sourceLine = String.ofList (withoutReturn line) := by
      change String.ofList ((SourceFile.ofText name source.toList).line
        ((LineTable.ofText source.toList).position (diagnose source.toList e).span.start).line) = _
      rw [position, isLine.file_line]
    rw [shown, first.whole, withoutReturn_append filled]
  · have mended : located.mendedLine = some (String.ofList (m.mendedLine source.toList)) := by
      change ((diagnose source.toList e).misspelling.map fun m =>
        String.ofList (m.mendedLine source.toList)) = _
      rw [found]
      rfl
    rw [mended, Misspelling.mendedLine_eq isLine first span]

theorem func_misspelled :
    "func main() {}\n".utf8ByteSize < UInt32.size - 1 ∧
    ∃ e ∈ (parse .program 100 "func main() {}\n").errors, ∃ m,
      (diagnose "func main() {}\n".toList e).misspelling = some m ∧ m.keyword = "fn" ∧
      e.kind = .syntactic ∧ ∃ word : List Char, 3 ≤ word.length ∧ ∃ before after,
        let located := LocatedDiagnostic.ofDiagnostic
          (SourceFile.ofText "main.um" "func main() {}\n".toList) (diagnose "func main() {}\n".toList e)
        located.sourceLine = String.ofList (before ++ word ++ after) ∧
          located.mendedLine = some (String.ofList (before ++ m.keyword.toList ++ after)) := by
  have small : "func main() {}\n".utf8ByteSize < UInt32.size - 1 := by decide +kernel
  have suggests : ((parse .program 100 "func main() {}\n").errors.any fun e =>
      (diagnose "func main() {}\n".toList e).misspelling.any (·.keyword == "fn")) = true := by
    decide +kernel
  obtain ⟨e, mem, some⟩ := List.any_eq_true.mp suggests
  obtain ⟨m, found, keyword⟩ := (Option.any_eq_true _ _).mp some
  obtain ⟨syntactic, -, -, -, -, word, -, -, -, -, -, -, -, long, -, -, mended⟩ :=
    misspelling_spec .program 100 "func main() {}\n" "main.um" small mem found
  exact ⟨small, e, mem, m, found, by simpa using keyword, syntactic, word, long, mended⟩

end UmkaSyntax
