import UmkaSyntax.Source.LineTable
import UmkaSyntax.Text.Styled

namespace UmkaSyntax

/-- Columns of one line, counted from zero; `stop` is not included. -/
structure ColumnRange where
  start : Nat
  stop : Nat
  deriving DecidableEq

namespace ColumnRange

def ofSpan (file : SourceFile) (line : Nat) (span : Span) : ColumnRange :=
  let first := file.lines.position span.start
  let last := file.lines.position span.stop
  let start := if first.line = line then first.column - 1 else 0
  let stop := if last.line = line then last.column - 1 else (file.line line).length
  ⟨start, max stop (start + 1)⟩

def contains (columns : ColumnRange) (column : Nat) : Bool :=
  columns.start ≤ column && column < columns.stop

end ColumnRange

namespace Marks

/-- The mark under a column of the line: `^` for the error, which wins, and `-` for the misspelled
word. -/
def under (primary : ColumnRange) (secondary : Option ColumnRange) (column : Nat) : Char :=
  if primary.contains column then '^'
  else if secondary.any (·.contains column) then '-'
  else ' '

def row (primary : ColumnRange) (secondary : Option ColumnRange) : List Char :=
  let width := (secondary.map fun columns => max columns.stop primary.stop).getD primary.stop
  (List.range width).map (under primary secondary)

def runs : List Char → List (Char × Nat)
  | [] => []
  | c :: cs => match runs cs with
      | (d, n) :: more => if c = d then (d, n + 1) :: more else (c, 1) :: (d, n) :: more
      | [] => [(c, 1)]

def style (mark : Char) (text : String) : StyledText :=
  if mark = '^' then .boldColour .red text
  else if mark = '-' then .colour .blue text
  else .plain text

def styledRow (primary : ColumnRange) (secondary : Option ColumnRange) : StyledText :=
  (runs (row primary secondary)).flatMap fun (mark, length) =>
    style mark (String.ofList (List.replicate length mark))

end Marks

end UmkaSyntax
