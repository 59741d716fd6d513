import UmkaSyntax.Diagnostic.Basic
import UmkaSyntax.Diagnostic.Marks
import UmkaSyntax.Text.Basic

namespace UmkaSyntax

namespace Rendering

def marginWidth (line : Nat) : Nat := max (toString line).length 2 + 1

def margin (line : Nat) : StyledText := .plain (spaces (marginWidth line))

def numberedMargin (line : Nat) : StyledText :=
  .boldColour .blue (padLeft (marginWidth line) (toString line))

def barred (margin content : StyledText) : StyledText :=
  margin ++ .plain " " ++ .colour .blue "|" ++ content

def sourceRow (line : Nat) (text : List Char) : StyledText :=
  barred (numberedMargin line) (.plain (" " ++ String.ofList text))

def underColumn (line column : Nat) (content : StyledText) : StyledText :=
  barred (margin line) (.plain (" " ++ spaces column) ++ content)

def heading (d : Diagnostic) : StyledText :=
  .boldColour .red "error" ++ .plain "[" ++ .boldColour .red d.code ++ .plain "]: " ++
    .bold d.message

def placeRow (file : SourceFile) (place : Position) : StyledText :=
  .plain "  " ++ .colour .blue "-->" ++
    .plain (" " ++ file.name ++ ":" ++ toString place.line ++ ":" ++ toString place.column)

def markRow (line : Nat) (primary : ColumnRange) (secondary : Option ColumnRange)
    (label : String) : StyledText :=
  barred (margin line)
    (.plain " " ++ Marks.styledRow primary secondary ++ .plain " " ++ .boldColour .red label)

def pointerRows (line : Nat) (word : ColumnRange) : List StyledText :=
  [underColumn line word.start (.colour .blue "|"),
    underColumn line word.start (.colour .blue "not a keyword")]

def remark (line : Nat) (title text : String) : StyledText :=
  margin line ++ .plain " " ++ .colour .cyan "=" ++ .plain " " ++ .boldColour .cyan title ++
    .plain (": " ++ text)

def mendedRows (file : SourceFile) (line : Nat) (m : Misspelling) (word : ColumnRange) :
    List StyledText :=
  [barred (margin line) [], sourceRow line (m.mendedLine file.text),
    underColumn line word.start
      (.colour .green (String.ofList (List.replicate m.keyword.length '~')))]

def rows (file : SourceFile) (d : Diagnostic) : List StyledText :=
  let place := file.lines.position d.span.start
  let line := place.line
  let columns := ColumnRange.ofSpan file line
  let word := d.misspelling.map fun m => columns m.span
  [heading d, placeRow file place, barred (margin line) [], sourceRow line (file.line line),
    markRow line (columns d.span) word d.label] ++
  (word.map (pointerRows line)).getD [] ++
  (d.note.map (remark line "note")).toList ++
  (d.help.map (remark line "help")).toList ++
  (d.misspelling.map fun m => mendedRows file line m (columns m.span)).getD []

end Rendering

def Diagnostic.render (file : SourceFile) (d : Diagnostic) : StyledText :=
  (Rendering.rows file d).flatMap StyledText.line

end UmkaSyntax
