import UmkaSyntax.Diagnostic.Render
import UmkaSyntax.Proofs.Suggestions

/-!
Marks under a line. They stand under the characters that they mean as long as bytes and characters
are the same thing there: where the error starts is counted in bytes, and so is how long it is.
-/

namespace UmkaSyntax

namespace Span

def before (span : Span) (cs : List Char) : List Char :=
  lastLine ((takeBytes? span.start cs).getD [])

def text (span : Span) (cs : List Char) : List Char := (slice? cs span).getD []

def behind (span : Span) (cs : List Char) : List Char := (dropBytes? span.stop cs).getD []

def displayed (span : Span) (cs : List Char) : List Char :=
  withoutReturn (span.before cs ++ firstLine (span.text cs ++ span.behind cs))

def shown (span : Span) (cs : List Char) : List Char :=
  ((span.displayed cs).drop (span.before cs).length).take (span.text cs).length

/-- Behind other characters of the span comes the carriage return that ends its line. -/
def ReachesReturn (span : Span) (cs : List Char) : Prop :=
  (∃ more, more ≠ [] ∧ span.text cs = more ++ ['\r']) ∧ firstLine (span.behind cs) = []

/-- In front of the span every character takes one byte, and so do its own if it ends on its line,
where it does not reach the carriage return either. -/
structure Narrow (span : Span) (cs : List Char) : Prop where
  before : ∀ c ∈ span.before cs, c.utf8Size = 1
  inside : '\n' ∉ span.text cs → ∀ c ∈ span.text cs, c.utf8Size = 1
  stops : '\n' ∉ span.text cs → ¬span.ReachesReturn cs

end Span

namespace Rendering

def gutter (line : Nat) : String := spaces (marginWidth line) ++ " | "

def numberedGutter (line : Nat) : String := padLeft (marginWidth line) (toString line) ++ " | "

end Rendering

/-- The marks under the line stand under the characters of the span, or under one character if none
of them is displayed. -/
def Diagnostic.Aligned (d : Diagnostic) (file : SourceFile) : Prop :=
  ∃ marks : List Char,
    (Rendering.rows file d)[4]?.map (StyledText.write false) =
      some (Rendering.gutter (file.lines.position d.span.start).line ++ String.ofList marks) ∧
    (marks.takeWhile (· != '^')).length = (d.span.before file.text).length ∧
    marks.count '^' = max 1 (d.span.shown file.text).length

namespace StyledText

theorem write_append (left right : StyledText) :
    (left ++ right).write false = left.write false ++ right.write false := by
  simp [write]

theorem write_plain (text : String) : (plain text).write false = text := by
  simp [write, plain, Run.plain, Run.write]

theorem write_styled (style : Style) (text : String) : (styled style text).write false = text := by
  simp [write, styled, Run.write]

end StyledText

namespace Marks

theorem flatMap_runs (cs : List Char) :
    (runs cs).flatMap (fun (c, n) => List.replicate n c) = cs := by
  induction cs with
  | nil => rfl
  | cons c cs ih =>
      rw [runs]
      split
      next d n more eq =>
        rw [eq, List.flatMap_cons] at ih
        split
        next same =>
          subst same
          rw [List.flatMap_cons, ← ih]
          rfl
        next => rw [List.flatMap_cons, List.flatMap_cons, ← ih]; rfl
      next eq =>
        rw [eq] at ih
        rw [← ih]
        rfl

theorem write_style (mark : Char) (text : String) : (style mark text).write false = text := by
  unfold style
  split
  · exact StyledText.write_styled _ _
  · split
    · exact StyledText.write_styled _ _
    · exact StyledText.write_plain _

theorem write_styledRow (primary : ColumnRange) (secondary : Option ColumnRange) :
    (styledRow primary secondary).write false = String.ofList (row primary secondary) := by
  have each : ∀ all : List (Char × Nat), StyledText.write false (all.flatMap fun (mark, length) =>
      style mark (String.ofList (List.replicate length mark))) =
        String.ofList (all.flatMap fun (c, n) => List.replicate n c) := by
    intro all
    induction all with
    | nil => rfl
    | cons run more ih =>
        rw [List.flatMap_cons, StyledText.write_append, ih, write_style, List.flatMap_cons,
          String.ofList_append]
  rw [styledRow, each, flatMap_runs]

theorem row_eq {primary : ColumnRange} (secondary : Option ColumnRange)
    (wide : primary.start < primary.stop) : ∃ before after,
    row primary secondary = before ++ List.replicate (primary.stop - primary.start) '^' ++ after ∧
      before.length = primary.start ∧ '^' ∉ before ∧ '^' ∉ after := by
  obtain ⟨more, width⟩ : ∃ more, (secondary.map fun columns => max columns.stop primary.stop).getD
      primary.stop = primary.start + (primary.stop - primary.start) + more := by
    refine Nat.exists_eq_add_of_le ?_
    cases secondary with
    | none =>
        simp only [Option.map_none, Option.getD_none]
        omega
    | some columns =>
        simp only [Option.map_some, Option.getD_some]
        omega
  have outside : ∀ column, primary.contains column = false → under primary secondary column ≠ '^' := by
    intro column out
    rw [under, out]
    split
    · contradiction
    · split <;> decide
  -- The columns in front of the error, and those behind it.
  refine ⟨(List.range primary.start).map (under primary secondary),
    (List.range more).map fun i => under primary secondary (primary.stop + i), ?_, by simp, ?_, ?_⟩
  · have marked : (List.range (primary.stop - primary.start)).map
        (under primary secondary ∘ (primary.start + ·)) =
          List.replicate (primary.stop - primary.start) '^' := by
      rw [List.eq_replicate_iff]
      refine ⟨by simp, fun c mem => ?_⟩
      obtain ⟨i, inside, rfl⟩ := List.mem_map.mp mem
      have within : primary.contains (primary.start + i) = true := by
        have := List.mem_range.mp inside
        simp [ColumnRange.contains]
        omega
      simp [under, within]
    have stop : primary.start + (primary.stop - primary.start) = primary.stop := by omega
    rw [row, width, List.range_add, List.range_add, List.map_append, List.map_append, List.map_map,
      List.map_map, marked, stop]
    rfl
  · intro mem
    obtain ⟨i, inside, eq⟩ := List.mem_map.mp mem
    refine outside i ?_ eq
    have := List.mem_range.mp inside
    simp [ColumnRange.contains]
    omega
  · intro mem
    obtain ⟨i, -, eq⟩ := List.mem_map.mp mem
    refine outside _ ?_ eq
    simp [ColumnRange.contains]

end Marks

theorem byteLength_ge (cs : List Char) : cs.length ≤ byteLength cs := by
  induction cs with
  | nil => exact Nat.le_refl 0
  | cons c cs ih =>
      have size := c.utf8Size_pos
      simp only [List.length_cons, byteLength]
      omega

theorem byteLength_eq_length_iff {cs : List Char} :
    byteLength cs = cs.length ↔ ∀ c ∈ cs, c.utf8Size = 1 := by
  induction cs with
  | nil => simp [byteLength]
  | cons c cs ih =>
      have size := c.utf8Size_pos
      have more := byteLength_ge cs
      rw [List.forall_mem_cons, ← ih, byteLength, List.length_cons]
      omega

namespace Stretch.In

variable {s : Stretch} {cs left right : List Char}

theorem cut (whole : cs = left ++ s.text ++ right)
    (place : s.span = ⟨byteLength left, byteLength left + byteLength s.text⟩) :
    s.span.before cs = lastLine left ∧ s.span.text cs = s.text ∧ s.span.behind cs = right := by
  have inside : s.In cs := ⟨left, right, whole, place⟩
  refine ⟨?_, ?_, ?_⟩
  · rw [Span.before, whole, place, List.append_assoc, takeBytes?_append]
    rfl
  · rw [Span.text, inside.slice?]
    rfl
  · rw [Span.behind, whole, place, ← byteLength_append, dropBytes?_append]
    rfl

end Stretch.In

/-- The columns of a span on the line where it starts: bytes in front of it, and then its own bytes,
or the characters up to the end of the line. -/
theorem ColumnRange.ofSpan_eq {s : Stretch} {cs : List Char} (inside : s.In cs)
    (small : byteLength cs < UInt32.size) (name : String) :
    let file := SourceFile.ofText name cs
    let start := byteLength (s.span.before cs)
    ColumnRange.ofSpan file (file.lines.position s.span.start).line s.span =
      ⟨start, max (if '\n' ∈ s.text then (s.span.displayed cs).length else start + byteLength s.text)
        (start + 1)⟩ ∧
    file.line (file.lines.position s.span.start).line = s.span.displayed cs := by
  intro file start
  obtain ⟨left, right, whole, place⟩ := inside
  obtain ⟨before, text, behind⟩ := Stretch.In.cut whole place
  have first : file.lines.position s.span.start =
      ⟨left.count '\n' + 1, byteLength (lastLine left) + 1⟩ := by
    have small := small
    rw [whole, List.append_assoc] at small
    rw [place]
    change (LineTable.ofText cs).position _ = _
    rw [whole, List.append_assoc]
    exact LineTable.position_eq small
  have last : file.lines.position s.span.stop =
      ⟨(left ++ s.text).count '\n' + 1, byteLength (lastLine (left ++ s.text)) + 1⟩ := by
    have small := small
    rw [whole] at small
    rw [place, ← byteLength_append]
    change (LineTable.ofText cs).position _ = _
    rw [whole]
    exact LineTable.position_eq small
  have line : file.line (left.count '\n' + 1) = s.span.displayed cs := by
    rw [Span.displayed, before, text, behind, ← SourceFile.line_eq name left (s.text ++ right),
      ← List.append_assoc, ← whole]
  rw [first]
  refine ⟨?_, line⟩
  simp only [ColumnRange.ofSpan, first, last, line, if_true, Nat.add_sub_cancel, start, before]
  -- A span with a newline ends on a later line, and is marked to the end of its own.
  by_cases newline : '\n' ∈ s.text
  · have more : ¬ (left ++ s.text).count '\n' + 1 = left.count '\n' + 1 := by
      have some := List.count_pos_iff.mpr newline
      rw [List.count_append]
      omega
    rw [if_neg more, if_pos newline]
  · have same : (left ++ s.text).count '\n' = left.count '\n' := by
      rw [List.count_append, List.count_eq_zero_of_not_mem newline, Nat.add_zero]
    obtain ⟨front, split, starts⟩ := append_lastLine left
    have column : lastLine (left ++ s.text) = lastLine left ++ s.text := by
      nth_rewrite 1 [split]
      rw [List.append_assoc]
      exact lastLine_append_of_single (by simp [newline, newline_not_mem_lastLine]) starts
    rw [if_pos (by rw [same]), if_neg newline, column, byteLength_append]

namespace Rendering

theorem write_sourceRow (line : Nat) (text : List Char) :
    (sourceRow line text).write false = numberedGutter line ++ String.ofList text := by
  simp only [sourceRow, barred, numberedMargin, StyledText.boldColour, StyledText.colour,
    StyledText.write_append, StyledText.write_plain, StyledText.write_styled, numberedGutter,
    String.append_assoc]
  rfl

theorem write_markRow (line : Nat) (primary : ColumnRange) (secondary : Option ColumnRange)
    (label : String) : (markRow line primary secondary label).write false =
      gutter line ++ String.ofList (Marks.row primary secondary ++ ' ' :: label.toList) := by
  simp only [markRow, barred, margin, StyledText.boldColour, StyledText.colour,
    StyledText.write_append, StyledText.write_plain, StyledText.write_styled, Marks.write_styledRow,
    gutter, String.append_assoc, String.ofList_append, String.ofList_cons, String.ofList_toList]
  rfl

end Rendering

theorem Diagnostic.aligned_iff_columns {d : Diagnostic} {file : SourceFile}
    (plain : '^' ∉ d.label.toList) {columns : ColumnRange}
    (same : ColumnRange.ofSpan file (file.lines.position d.span.start).line d.span = columns)
    (wide : columns.start < columns.stop) :
    d.Aligned file ↔ columns.start = (d.span.before file.text).length ∧
      columns.stop - columns.start = max 1 (d.span.shown file.text).length := by
  obtain ⟨before, after, row, length, clear, free⟩ := Marks.row_eq (d.misspelling.map fun m =>
    ColumnRange.ofSpan file (file.lines.position d.span.start).line m.span) wide
  have written : (Rendering.rows file d)[4]?.map (StyledText.write false) =
      some (Rendering.gutter (file.lines.position d.span.start).line ++ String.ofList
        (before ++ List.replicate (columns.stop - columns.start) '^' ++ after ++ ' ' :: d.label.toList)) := by
    rw [← row, ← same]
    exact congrArg some (Rendering.write_markRow _ _ _ _)
  have spaced : ∀ c ∈ before, (c != '^') = true := fun c mem => by
    simpa using fun eq : c = '^' => clear (eq ▸ mem)
  obtain ⟨more, marked⟩ := Nat.exists_eq_add_of_lt wide
  have width : columns.stop - columns.start = more + 1 := by omega
  have front : (before ++ List.replicate (columns.stop - columns.start) '^' ++ after ++
      ' ' :: d.label.toList).takeWhile (· != '^') = before := by
    rw [width, List.replicate_succ, List.append_assoc, List.append_assoc,
      List.takeWhile_append_of_pos spaced]
    simp
  have count : (before ++ List.replicate (columns.stop - columns.start) '^' ++ after ++
      ' ' :: d.label.toList).count '^' = columns.stop - columns.start := by
    simp [List.count_eq_zero_of_not_mem clear, List.count_eq_zero_of_not_mem free,
      List.count_eq_zero_of_not_mem plain]
  -- The fourth row is known, so its marks can be compared with what they mean.
  constructor
  · rintro ⟨marks, eq, start, stop⟩
    rw [written] at eq
    have text := congrArg String.toList (Option.some.inj eq)
    simp only [String.toList_append, String.toList_ofList] at text
    obtain rfl := List.append_cancel_left text
    rw [front, length] at start
    rw [count] at stop
    exact ⟨start, stop⟩
  · rintro ⟨start, stop⟩
    exact ⟨_, written, by rw [front, length, start], by rw [count, stop]⟩

namespace Span

variable {span : Span} {cs : List Char}

theorem shown_of_single (single : '\n' ∉ span.text cs) : span.shown cs =
    if firstLine (span.behind cs) = [] then withoutReturn (span.text cs) else span.text cs := by
  have line : firstLine (span.text cs ++ span.behind cs) =
      span.text cs ++ firstLine (span.behind cs) := by
    rw [firstLine, List.takeWhile_append_of_pos fun c mem => by
      simpa using fun eq : c = '\n' => single (eq ▸ mem)]
    rfl
  rw [shown, displayed, line]
  by_cases ended : firstLine (span.behind cs) = []
  · rw [if_pos ended, ended, List.append_nil]
    by_cases none : span.text cs = []
    · simp [none, withoutReturn]
    · have size : (withoutReturn (span.text cs)).length ≤ (span.text cs).length := by
        unfold withoutReturn
        split <;> simp
      rw [withoutReturn_append none, List.drop_left, List.take_of_length_le size]
  · rw [if_neg ended, ← List.append_assoc, withoutReturn_append ended, List.append_assoc,
      List.drop_left, List.take_left]

theorem shown_of_newline (newline : '\n' ∈ span.text cs) :
    span.shown cs = (span.displayed cs).drop (span.before cs).length := by
  have line : (firstLine (span.text cs ++ span.behind cs)).length ≤ (span.text cs).length := by
    have short := (List.takeWhile_sublist (· != '\n') (l := span.text cs)).length_le
    rw [firstLine, List.takeWhile_append]
    split
    next full =>
      have whole := (List.takeWhile_prefix (· != '\n')).eq_of_length full
      exact absurd (whole ▸ newline) (newline_not_mem_firstLine _)
    next => exact short
  have size : (span.displayed cs).length ≤ (span.before cs).length + (span.text cs).length := by
    have shorter : ∀ cs : List Char, (withoutReturn cs).length ≤ cs.length := by
      intro cs
      unfold withoutReturn
      split <;> simp
    refine Nat.le_trans (shorter _) ?_
    rw [List.length_append]
    omega
  rw [shown, List.take_of_length_le (by rw [List.length_drop]; omega)]

theorem width_iff (single : '\n' ∉ span.text cs) :
    max (byteLength (span.text cs)) 1 = max 1 (span.shown cs).length ↔
      (∀ c ∈ span.text cs, c.utf8Size = 1) ∧ ¬span.ReachesReturn cs := by
  have more := byteLength_ge (span.text cs)
  rw [shown_of_single single, ← byteLength_eq_length_iff, ReachesReturn]
  by_cases ended : firstLine (span.behind cs) = []
  · rw [if_pos ended]
    obtain none | ⟨init, last, eq⟩ := List.eq_nil_or_concat' (span.text cs)
    · simp [none, withoutReturn, byteLength]
    · have size : byteLength (init ++ [last]) = byteLength init + last.utf8Size := by
        rw [byteLength_append]
        rfl
      have inits := byteLength_ge init
      have positive := last.utf8Size_pos
      -- A carriage return at the end of the line is marked but not shown, unless it is all that
      -- is marked.
      by_cases ret : last = '\r'
      · subst ret
        have one : ('\r' : Char).utf8Size = 1 := rfl
        have shown : withoutReturn (init ++ ['\r']) = init := by simp [withoutReturn]
        have reaches : (∃ more, more ≠ [] ∧ init ++ ['\r'] = more ++ ['\r']) ↔ init ≠ [] := by
          constructor
          · rintro ⟨more, filled, same⟩
            rwa [List.append_cancel_right same]
          · exact fun filled => ⟨init, filled, rfl⟩
        rw [eq, shown, reaches, size, one, List.length_append, List.length_singleton]
        rw [and_iff_left ended, not_not, ← List.length_eq_zero_iff]
        omega
      · have shown : withoutReturn (init ++ [last]) = init ++ [last] := by simp [withoutReturn, ret]
        have stays : ¬ ∃ more, more ≠ [] ∧ init ++ [last] = more ++ ['\r'] := by
          rintro ⟨more, -, same⟩
          exact ret (List.singleton_injective (List.append_inj' same rfl).2)
        rw [eq, shown, size, List.length_append, List.length_singleton]
        simp only [stays, false_and, not_false_eq_true, and_true]
        omega
  · have nothing : (span.text cs).length = 0 → byteLength (span.text cs) = 0 := fun none => by
      rw [List.length_eq_zero_iff.mp none]
      rfl
    rw [if_neg ended]
    simp only [ended, and_false, not_false_eq_true, and_true]
    omega

end Span

theorem ErrorKind.label_plain (kind : ErrorKind) : '^' ∉ kind.label.toList := by
  cases kind with
  | lexical kind => cases kind <;> decide
  | syntactic | unexpectedEnd => decide

theorem label_diagnose (cs : List Char) (e : ParseError) : (diagnose cs e).label = e.kind.label := by
  unfold diagnose
  repeat' split
  all_goals rfl

/-- The marks of a diagnostic are aligned with what it means if, and only if, its span is narrow. -/
theorem Diagnostic.aligned_iff_narrow {d : Diagnostic} (plain : '^' ∉ d.label.toList) {text cs : List Char}
    (inside : Stretch.In ⟨d.span, text⟩ cs) (small : byteLength cs < UInt32.size) (name : String) :
    d.Aligned (SourceFile.ofText name cs) ↔ d.span.Narrow cs := by
  have own : d.span.text cs = text := by
    rw [Span.text, inside.slice?]
    rfl
  have columns := (ColumnRange.ofSpan_eq inside small name).1
  simp only [← own] at columns
  rw [Diagnostic.aligned_iff_columns plain columns (Nat.lt_of_lt_of_le (Nat.lt_succ_self _)
    (Nat.le_max_right _ _))]
  have front : byteLength (d.span.before cs) = (d.span.before cs).length ↔
      ∀ c ∈ d.span.before cs, c.utf8Size = 1 := byteLength_eq_length_iff
  have file : (SourceFile.ofText name cs).text = cs := rfl
  dsimp only
  rw [file]
  by_cases newline : '\n' ∈ d.span.text cs
  · rw [if_pos newline, front, Span.shown_of_newline newline, List.length_drop]
    constructor
    · exact fun aligned => ⟨aligned.1, fun single => absurd newline single,
        fun single => absurd newline single⟩
    · intro narrow
      have start := front.mpr narrow.before
      exact ⟨narrow.before, by omega⟩
  · have width := Span.width_iff newline
    have length : max (byteLength (d.span.before cs) + byteLength (d.span.text cs))
        (byteLength (d.span.before cs) + 1) - byteLength (d.span.before cs) =
          max (byteLength (d.span.text cs)) 1 := by
      omega
    rw [if_neg newline, front, length, width]
    exact ⟨fun ⟨before, inside, stops⟩ => ⟨before, fun _ => inside, fun _ => stops⟩,
      fun narrow => ⟨narrow.before, narrow.inside newline, narrow.stops newline⟩⟩

/-- The row above the marks shows the line on which the diagnostic starts. The marks stand under the
characters that the diagnostic means exactly when bytes are as good as characters there: when all
characters in front of it on its line take one byte, and if it ends on that line also its own do and
the carriage return behind the line is not among them. -/
theorem underline_aligned_iff (entry : Entry) (maxErrors : Nat) (source name : String)
    (small : source.utf8ByteSize < UInt32.size - 1) {d : Diagnostic}
    (mem : d ∈ diagnostics source.toList (parse entry maxErrors source).errors) :
    let file := SourceFile.ofText name source.toList
    (Rendering.rows file d)[3]?.map (StyledText.write false) =
      some (Rendering.numberedGutter (file.lines.position d.span.start).line ++
        String.ofList (d.span.displayed source.toList)) ∧
    (d.Aligned file ↔ d.span.Narrow source.toList) := by
  intro file
  obtain ⟨e, isError, rfl⟩ := List.mem_map.mp mem
  obtain ⟨text, inside⟩ := parse_error_in isError
  rw [← span_diagnose source.toList e] at inside
  have fits : byteLength source.toList < UInt32.size := by
    rw [← utf8ByteSize_eq_byteLength]
    exact Nat.lt_of_lt_of_le small (by decide)
  have line := (ColumnRange.ofSpan_eq inside fits name).2
  refine ⟨?_, Diagnostic.aligned_iff_narrow ?_ inside fits name⟩
  · rw [← line]
    exact congrArg some (Rendering.write_sourceRow _ _)
  · rw [label_diagnose]
    exact e.kind.label_plain

/-- A character of two bytes behind the span does no harm. -/
theorem comment_behind_aligned :
    let source := "x := @ /* é */\n"
    source.utf8ByteSize < UInt32.size - 1 ∧
    ∃ d ∈ diagnostics source.toList (parse .program 100 source).errors,
      d.Aligned (SourceFile.ofText "main.um" source.toList) := by
  intro source
  have small : source.utf8ByteSize < UInt32.size - 1 := by decide +kernel
  have found : ((diagnostics source.toList (parse .program 100 source).errors).any
      (·.span == ⟨5, 6⟩)) = true := by
    decide +kernel
  obtain ⟨d, mem, same⟩ := List.any_eq_true.mp found
  have span : d.span = ⟨5, 6⟩ := by simpa using same
  refine ⟨small, d, mem, (underline_aligned_iff .program 100 source "main.um" small mem).2.mpr ?_⟩
  rw [span]
  refine ⟨byteLength_eq_length_iff.mp (by decide +kernel),
    fun _ => byteLength_eq_length_iff.mp (by decide +kernel), fun _ reaches => ?_⟩
  exact absurd reaches.2 (by decide +kernel)

/-- In front of the span it moves the marks to the right. -/
theorem comment_before_misaligned :
    let source := "/* é */ @\n"
    ∃ d ∈ diagnostics source.toList (parse .program 100 source).errors,
      ¬d.Aligned (SourceFile.ofText "main.um" source.toList) := by
  intro source
  have found : ((diagnostics source.toList (parse .program 100 source).errors).any fun d =>
      d.span == ⟨9, 10⟩ && d.label == "here") = true := by
    decide +kernel
  obtain ⟨d, mem, same⟩ := List.any_eq_true.mp found
  obtain ⟨span, label⟩ : d.span = ⟨9, 10⟩ ∧ d.label = "here" := by simpa using same
  refine ⟨d, mem, fun aligned => ?_⟩
  have columns : ColumnRange.ofSpan (SourceFile.ofText "main.um" source.toList)
      ((SourceFile.ofText "main.um" source.toList).lines.position d.span.start).line d.span = ⟨9, 10⟩ := by
    rw [span]
    decide +kernel
  have start := ((Diagnostic.aligned_iff_columns (by rw [label]; decide) columns (by decide)).mp aligned).1
  rw [span] at start
  exact absurd start (by decide +kernel)

end UmkaSyntax
