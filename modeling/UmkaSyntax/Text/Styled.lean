namespace UmkaSyntax

inductive Colour
  | red | green | yellow | blue | cyan
  deriving DecidableEq

def Colour.code : Colour → Nat
  | red => 31
  | green => 32
  | yellow => 33
  | blue => 34
  | cyan => 36

structure Style where
  bold : Bool := false
  dimmed : Bool := false
  underlined : Bool := false
  colour : Option Colour := none
  deriving DecidableEq

namespace Style

def codes (style : Style) : List Nat :=
  (if style.bold then [1] else []) ++ (if style.dimmed then [2] else []) ++
    (if style.underlined then [4] else []) ++ (style.colour.map Colour.code).toList

def start (style : Style) : List Char :=
  ['\x1b', '['] ++ ";".toList.intercalate (style.codes.map fun n => Nat.toDigits 10 n) ++ ['m']

end Style

def styleEnd : List Char := ['\x1b', '[', '0', 'm']

/-- Turns a style on again wherever the text itself turns all styles off. -/
def resume (start : List Char) : List Char → List Char
  | '\x1b' :: '[' :: '0' :: 'm' :: cs => styleEnd ++ start ++ resume start cs
  | c :: cs => c :: resume start cs
  | [] => []

structure Run where
  style : Option Style
  text : String

namespace Run

def plain (text : String) : Run := ⟨none, text⟩

def write (colours : Bool) (run : Run) : List Char :=
  match run.style with
  | some style =>
      if colours then style.start ++ resume style.start run.text.toList ++ styleEnd
      else run.text.toList
  | none => run.text.toList

end Run

abbrev StyledText := List Run

namespace StyledText

def plain (text : String) : StyledText := [Run.plain text]

def styled (style : Style) (text : String) : StyledText := [⟨some style, text⟩]

def colour (colour : Colour) (text : String) : StyledText := styled { colour := some colour } text

def boldColour (colour : Colour) (text : String) : StyledText :=
  styled { bold := true, colour := some colour } text

def bold (text : String) : StyledText := styled { bold := true } text

def dimmed (text : String) : StyledText := styled { dimmed := true } text

def underlined (text : String) : StyledText := styled { underlined := true } text

def line (text : StyledText) : StyledText := text ++ plain "\n"

def write (colours : Bool) (text : StyledText) : String :=
  String.ofList (text.flatMap (Run.write colours))

end StyledText

end UmkaSyntax
