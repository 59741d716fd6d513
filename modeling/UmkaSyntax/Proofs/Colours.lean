import UmkaSyntax.Proofs.Text.ControlSequences
import UmkaSyntax.Proofs.Underlines

namespace UmkaSyntax

def Diagnostic.texts (d : Diagnostic) : List String :=
  [d.code, d.message, d.label] ++ d.note.toList ++ d.help.toList ++
    (d.misspelling.map (·.keyword)).toList

namespace Marks

def paint? (mark : Char) (columns : ColumnRange) (row : List Char) : Option (List Char) :=
  if columns.start ≤ columns.stop ∧ columns.stop ≤ row.length then
    some (row.take columns.start ++ List.replicate (columns.stop - columns.start) mark ++
      row.drop columns.stop)
  else none

def painted? (primary : ColumnRange) (secondary : Option ColumnRange) : Option (List Char) :=
  let width := max primary.stop ((secondary.map ColumnRange.stop).getD 0)
  (secondary.toList ++ [primary]).foldlM
    (fun row columns => paint? (if columns = primary then '^' else '-') columns row)
    (List.replicate width ' ')

theorem paint?_map {mark : Char} {columns : ColumnRange} {width : Nat} (f : Nat → Char)
    (ordered : columns.start ≤ columns.stop) (inside : columns.stop ≤ width) :
    paint? mark columns ((List.range width).map f) =
      some ((List.range width).map fun i => if columns.contains i then mark else f i) := by
  rw [paint?, if_pos (by simpa using ⟨ordered, inside⟩)]
  congr 1
  apply List.ext_getElem
  · simp
    omega
  · intro i left right
    simp only [List.getElem_append, List.getElem_take, List.getElem_drop, List.getElem_map,
      List.getElem_range, List.getElem_replicate, ColumnRange.contains]
    grind

theorem painted?_eq {primary : ColumnRange} {secondary : Option ColumnRange}
    (first : primary.start ≤ primary.stop)
    (second : ∀ columns ∈ secondary, columns.start ≤ columns.stop) :
    painted? primary secondary = some (row primary secondary) := by
  have blank (width : Nat) : List.replicate width ' ' = (List.range width).map fun _ => ' ' := by
    rw [List.map_const', List.length_range]
  cases secondary with
  | none =>
      rw [painted?, blank, Option.toList_none, List.nil_append, List.foldlM_cons, if_pos rfl,
        paint?_map _ first (Nat.le_max_left ..)]
      simp [row, under]
  | some columns =>
      have wide : columns.start ≤ columns.stop := second columns rfl
      rw [painted?, Option.map_some, Option.getD_some, blank, Option.toList_some,
        List.singleton_append, List.foldlM_cons, paint?_map _ wide (Nat.le_max_right ..),
        Option.bind_eq_bind, Option.bind_some, List.foldlM_cons, if_pos rfl,
        paint?_map _ first (Nat.le_max_left ..), Option.bind_eq_bind, Option.bind_some,
        List.foldlM_nil, row, Option.map_some, Option.getD_some, Nat.max_comm columns.stop]
      refine congrArg some (List.map_congr_left fun i _ => ?_)
      rw [under, Option.any_some]
      -- A word at the very columns of the error is painted like the error.
      by_cases same : columns = primary
      · grind
      · grind

end Marks

theorem escape_not_mem_spaces (n : Nat) : '\x1b' ∉ (spaces n).toList := by
  rw [spaces, String.toList_ofList]
  exact fun mem => absurd (List.eq_of_mem_replicate mem) (by decide)

theorem escape_not_mem_digits (n : Nat) : '\x1b' ∉ Nat.toDigits 10 n := fun mem =>
  absurd (Nat.isDigit_of_mem_toDigits (by decide) (by decide) mem) (by decide)

theorem takeBytes?_subset {n : Nat} {cs front : List Char} (cut : takeBytes? n cs = some front) :
    front ⊆ cs := by
  induction n, cs using takeBytes?.induct generalizing front with
  | case1 cs =>
      rw [takeBytes?] at cut
      exact Option.some.inj cut ▸ List.nil_subset cs
  | case2 n => cases cut
  | case3 n c cs fits ih =>
      rw [takeBytes?, if_pos fits] at cut
      obtain ⟨more, found, rfl⟩ := Option.map_eq_some_iff.mp cut
      exact List.cons_subset_cons c (ih found)
  | case4 n c cs wide =>
      rw [takeBytes?, if_neg wide] at cut
      cases cut

theorem dropBytes?_subset {n : Nat} {cs rest : List Char} (cut : dropBytes? n cs = some rest) :
    rest ⊆ cs := by
  induction n, cs using dropBytes?.induct with
  | case1 cs =>
      rw [dropBytes?] at cut
      exact Option.some.inj cut ▸ List.Subset.refl cs
  | case2 n => cases cut
  | case3 n c cs fits ih =>
      rw [dropBytes?, if_pos fits] at cut
      exact List.Subset.trans (ih cut) (List.subset_cons_self c cs)
  | case4 n c cs wide =>
      rw [dropBytes?, if_neg wide] at cut
      cases cut

theorem slice?_subset {cs text : List Char} {span : Span} (cut : slice? cs span = some text) :
    text ⊆ cs := by
  rw [slice?] at cut
  split at cut
  · obtain ⟨rest, dropped, taken⟩ := Option.bind_eq_some_iff.mp cut
    exact List.Subset.trans (takeBytes?_subset taken) (dropBytes?_subset dropped)
  · cases cut

theorem line?_subset {table : LineTable} {cs text : List Char} {line : Nat}
    (found : table.line? cs line = some text) : text ⊆ cs := by
  rw [LineTable.line?.eq_def] at found
  split at found
  · cases found
  · split at found
    · cases found
    · exact slice?_subset found

theorem withoutReturn_subset (cs : List Char) : withoutReturn cs ⊆ cs := by
  rw [withoutReturn]
  split
  · exact cs.dropLast_subset
  · exact List.Subset.refl cs

theorem SourceFile.line_subset (file : SourceFile) (number : Nat) :
    file.line number ⊆ file.text := by
  refine List.Subset.trans (withoutReturn_subset _) ?_
  cases found : file.lines.line? file.text number with
  | none => exact List.nil_subset _
  | some text => exact line?_subset found

theorem Misspelling.mem_mendedLine {m : Misspelling} {cs : List Char} {c : Char}
    (mem : c ∈ m.mendedLine cs) : c ∈ cs ∨ c ∈ m.keyword.toList := by
  rw [mendedLine, List.mem_append, List.mem_append] at mem
  rcases mem with (before | keyword) | after
  · left
    cases cut : takeBytes? m.span.start cs with
    | none => simp [cut] at before
    | some front =>
        rw [cut, Option.map_some, Option.getD_some, lastLine, List.mem_reverse] at before
        exact takeBytes?_subset cut
          (List.mem_reverse.mp ((List.takeWhile_sublist _).subset before))
  · exact .inr keyword
  · left
    have after := withoutReturn_subset _ after
    cases cut : dropBytes? m.span.stop cs with
    | none => simp [cut] at after
    | some rest =>
        rw [cut, Option.map_some, Option.getD_some] at after
        exact dropBytes?_subset cut ((List.takeWhile_sublist _).subset after)

namespace Marks

theorem escape_not_mem_row (primary : ColumnRange) (secondary : Option ColumnRange) :
    '\x1b' ∉ row primary secondary := fun mem => by
  obtain ⟨column, -, eq⟩ := List.mem_map.mp mem
  rw [under] at eq
  split at eq
  · exact absurd eq (by decide)
  · split at eq <;> exact absurd eq (by decide)

theorem clear_style {mark : Char} {text : String} :
    (style mark text).Clear ↔ '\x1b' ∉ text.toList := by
  rw [style]
  split
  · exact StyledText.clear_styled
  · split
    · exact StyledText.clear_styled
    · exact StyledText.clear_plain

theorem clear_styledRow (primary : ColumnRange) (secondary : Option ColumnRange) :
    (styledRow primary secondary).Clear := by
  intro run mem
  obtain ⟨⟨mark, length⟩, stretch, own⟩ := List.mem_flatMap.mp mem
  refine clear_style.mpr (fun escape => ?_) run own
  rw [String.toList_ofList] at escape
  refine escape_not_mem_row primary secondary ?_
  rw [← flatMap_runs (row primary secondary)]
  exact List.mem_flatMap.mpr ⟨_, stretch, escape⟩

end Marks

namespace Rendering

variable {line : Nat}

theorem clear_margin : (margin line).Clear :=
  StyledText.clear_plain.mpr (escape_not_mem_spaces _)

theorem clear_numberedMargin : (numberedMargin line).Clear := by
  simp [numberedMargin, StyledText.boldColour, padLeft, escape_not_mem_spaces,
    escape_not_mem_digits]

theorem clear_barred {margin content : StyledText} (left : margin.Clear) (right : content.Clear) :
    (barred margin content).Clear := by
  simp [barred, StyledText.colour, left, right]

theorem clear_sourceRow {text : List Char} (clear : '\x1b' ∉ text) :
    (sourceRow line text).Clear :=
  clear_barred clear_numberedMargin (by simp [clear])

theorem clear_underColumn {column : Nat} {content : StyledText} (clear : content.Clear) :
    (underColumn line column content).Clear :=
  clear_barred clear_margin (by simp [clear, escape_not_mem_spaces])

theorem clear_remark {title text : String} (heading : '\x1b' ∉ title.toList)
    (clear : '\x1b' ∉ text.toList) : (remark line title text).Clear := by
  simp [remark, StyledText.colour, StyledText.boldColour, clear_margin, heading, clear]

theorem clear_heading {d : Diagnostic} (code : '\x1b' ∉ d.code.toList)
    (message : '\x1b' ∉ d.message.toList) : (heading d).Clear := by
  simp [heading, StyledText.boldColour, StyledText.bold, code, message]

theorem clear_placeRow {file : SourceFile} {place : Position} (name : '\x1b' ∉ file.name.toList) :
    (placeRow file place).Clear := by
  simp [placeRow, StyledText.colour, escape_not_mem_digits, name]

theorem clear_markRow {primary : ColumnRange} {secondary : Option ColumnRange} {label : String}
    (clear : '\x1b' ∉ label.toList) : (markRow line primary secondary label).Clear :=
  clear_barred clear_margin
    (by simp [StyledText.boldColour, Marks.clear_styledRow, clear])

theorem clear_mendedRows {file : SourceFile} {m : Misspelling} {word : ColumnRange}
    (source : '\x1b' ∉ file.text) (keyword : '\x1b' ∉ m.keyword.toList) :
    ∀ row ∈ mendedRows file line m word, row.Clear := by
  have marks : '\x1b' ∉ List.replicate m.keyword.length '~' := fun mem =>
    absurd (List.eq_of_mem_replicate mem) (by decide)
  simp only [mendedRows, List.forall_mem_cons, List.not_mem_nil, IsEmpty.forall_iff,
    implies_true, and_true]
  refine ⟨clear_barred clear_margin (by simp [StyledText.Clear]), clear_sourceRow fun mem => ?_,
    clear_underColumn (StyledText.clear_styled.mpr (by rwa [String.toList_ofList]))⟩
  exact (Misspelling.mem_mendedLine mem).elim source keyword

theorem clear_rows {file : SourceFile} {d : Diagnostic} (name : '\x1b' ∉ file.name.toList)
    (source : '\x1b' ∉ file.text) (texts : ∀ text ∈ d.texts, '\x1b' ∉ text.toList) :
    ∀ row ∈ rows file d, row.Clear := by
  simp only [Diagnostic.texts, List.forall_mem_append, List.forall_mem_cons, List.not_mem_nil,
    IsEmpty.forall_iff, implies_true, and_true, Option.mem_toList] at texts
  obtain ⟨⟨⟨⟨code, message, label⟩, note⟩, help⟩, keyword⟩ := texts
  simp only [rows, List.forall_mem_append, List.forall_mem_cons, List.not_mem_nil,
    IsEmpty.forall_iff, implies_true, and_true]
  refine ⟨⟨⟨⟨⟨clear_heading code message, clear_placeRow name,
    clear_barred clear_margin (by simp [StyledText.Clear]),
    clear_sourceRow fun mem => source (file.line_subset _ mem), clear_markRow label⟩,
    ?pointers⟩, ?note⟩, ?help⟩, ?mended⟩
  case pointers =>
    cases d.misspelling with
    | none => simp
    | some m => simp [pointerRows, clear_underColumn, StyledText.colour]
  case note =>
    cases eq : d.note with
    | none => simp
    | some text => simpa using clear_remark (by decide) (note text eq)
  case help =>
    cases eq : d.help with
    | none => simp
    | some text => simpa using clear_remark (by decide) (help text eq)
  case mended =>
    cases eq : d.misspelling with
    | none => simp
    | some m => exact clear_mendedRows source (keyword m.keyword (by rw [eq]; rfl))

end Rendering

namespace Marks

def width : List (Char × Nat) → Nat
  | [] => 0
  | (_, n) :: more => n + width more

/-- The marks of two ranges of columns stay the same on every way to the terminal. -/
structure Exact (primary : ColumnRange) (secondary : Option ColumnRange) : Prop where
  painted : painted? primary secondary = some (row primary secondary)
  /-- A run of marks is the stretch of the row that starts where the runs before it end. -/
  cut : ∀ front mark length behind,
    runs (row primary secondary) = front ++ (mark, length) :: behind →
    ((row primary secondary).drop (width front)).take length = List.replicate length mark
  plain : (styledRow primary secondary).write false = String.ofList (row primary secondary)
  coloured : withoutControls ((styledRow primary secondary).write true).toList =
    row primary secondary

theorem length_flatMap_replicate (all : List (Char × Nat)) :
    (all.flatMap fun (c, n) => List.replicate n c).length = width all := by
  induction all with
  | nil => rfl
  | cons run more ih => simp [width, ih]

theorem exact_of_ordered {primary : ColumnRange} {secondary : Option ColumnRange}
    (first : primary.start ≤ primary.stop)
    (second : ∀ columns ∈ secondary, columns.start ≤ columns.stop) : Exact primary secondary where
  painted := painted?_eq first second
  cut front mark length behind eq := by
    have whole := flatMap_runs (row primary secondary)
    rw [eq, List.flatMap_append, List.flatMap_cons] at whole
    rw [← whole, List.drop_left' (length_flatMap_replicate front), List.take_left' (by simp)]
  plain := write_styledRow primary secondary
  coloured := by
    rw [(clear_styledRow primary secondary).write, write_styledRow, String.toList_ofList]

end Marks

theorem ColumnRange.ofSpan_ordered (file : SourceFile) (line : Nat) (span : Span) :
    (ofSpan file line span).start < (ofSpan file line span).stop :=
  Nat.le_max_right ..

theorem Diagnostic.clear_render {file : SourceFile} {d : Diagnostic}
    (name : '\x1b' ∉ file.name.toList) (source : '\x1b' ∉ file.text)
    (texts : ∀ text ∈ d.texts, '\x1b' ∉ text.toList) : (d.render file).Clear := by
  intro run mem
  obtain ⟨row, mem, own⟩ := List.mem_flatMap.mp mem
  have ended : row.line.Clear := by
    simp [StyledText.line, Rendering.clear_rows name source texts row mem]
  exact ended run own

/-- A rendering without its control sequences is the rendering without colours, and the marks of
the columns that it shows are never cut off. -/
theorem Diagnostic.render_colours (name source : String) (d : Diagnostic)
    (clear : ∀ text ∈ name :: source :: d.texts, '\x1b' ∉ text.toList) :
    let file := SourceFile.ofText name source.toList
    withoutControls ((d.render file).write true).toList = ((d.render file).write false).toList ∧
    (∀ line span, (ColumnRange.ofSpan file line span).start <
      (ColumnRange.ofSpan file line span).stop) ∧
    ∀ primary secondary, primary.start ≤ primary.stop →
      (∀ columns ∈ secondary, columns.start ≤ columns.stop) → Marks.Exact primary secondary := by
  rw [List.forall_mem_cons, List.forall_mem_cons] at clear
  obtain ⟨named, read, texts⟩ := clear
  exact ⟨(Diagnostic.clear_render named read texts).write, ColumnRange.ofSpan_ordered _,
    fun _ _ => Marks.exact_of_ordered⟩

def misspelledFunction : Diagnostic where
  code := "E0100"
  message := "Expected ':=', found 'main'"
  span := ⟨5, 9⟩
  label := "here"
  note := some "declarations start with a keyword"
  help := some "did you mean `fn`?"
  misspelling := some ⟨⟨0, 4⟩, "fn"⟩

theorem misspelledFunction_colours :
    let d := misspelledFunction
    let file := SourceFile.ofText "main.um" "func main() {}\n".toList
    (∀ text ∈ "main.um" :: "func main() {}\n" :: d.texts, '\x1b' ∉ text.toList) ∧
    '\x1b' ∈ ((d.render file).write true).toList ∧
    withoutControls ((d.render file).write true).toList = ((d.render file).write false).toList ∧
    Marks.Exact ⟨5, 9⟩ (some ⟨0, 4⟩) := by
  have clear : ∀ text ∈ "main.um" :: "func main() {}\n" :: misspelledFunction.texts,
      '\x1b' ∉ text.toList := by
    decide +kernel
  obtain ⟨same, -, marks⟩ :=
    Diagnostic.render_colours "main.um" "func main() {}\n" misspelledFunction clear
  refine ⟨clear, ?coloured, same, marks ⟨5, 9⟩ (some ⟨0, 4⟩) (by decide) (by decide)⟩
  case coloured =>
    rw [StyledText.write, String.toList_ofList]
    decide +kernel

end UmkaSyntax
