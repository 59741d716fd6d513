import UmkaSyntax.Text.Basic

/-!
The sequences inside a literal. Which of them are known depends on where the literal stands: every
literal knows escape sequences, a format literal also format sequences, and an import path also
module names.
-/

namespace UmkaSyntax

inductive Flavor
  | plain | format | path
  deriving DecidableEq

inductive Segment
  | text
  | escape
  | format
  | module (nameLength : Nat)
  | invalidEscape
  /-- A percent sign, up to the character that breaks the sequence. -/
  | invalidFormat
  deriving DecidableEq

namespace Segment

def isEscapeLetter (c : Char) : Bool := "0abefnrtv".toList.contains c

/-- The escape sequence after a backslash: its length without the backslash, if it is known. -/
def escapeLength? : List Char → Option Nat
  | [] => none
  | c :: cs =>
      if isEscapeLetter c then some 1
      else if c = 'x' then
        match runLength isHexDigit (cs.take 2) with | 0 => none | n + 1 => some (n + 2)
      else none

def isFormatFlag (c : Char) : Bool := "-+ \t\r\x0b\x0c#0".toList.contains c

def isConversion (c : Char) : Bool := "diuxXfFeEgGscv%".toList.contains c

def flagLength : List Char → Nat
  | c :: _ => if isFormatFlag c then 1 else 0
  | [] => 0

def widthLength : List Char → Nat
  | '*' :: _ => 1
  | cs => runLength Char.isDigit cs

def precisionLength : List Char → Nat
  | '.' :: cs => runLength Char.isDigit cs + 1
  | _ => 0

def sizeLength : List Char → Nat
  | c :: cs => if c = 'h' ∨ c = 'l' then if cs.head? = some c then 2 else 1 else 0
  | [] => 0

/-- Reads a format sequence after its percent sign. The length does not count that sign; of a
broken sequence it is the length up to and with the character that breaks it. -/
def formatLength (cs : List Char) : Except Nat Nat :=
  let flag := flagLength cs
  let width := flag + widthLength (cs.drop flag)
  let precision := width + precisionLength (cs.drop width)
  let size := precision + sizeLength (cs.drop precision)
  match cs.drop size with
  | [] => .error size
  | c :: _ => if isConversion c then .ok (size + 1) else .error (size + 1)

def moduleSuffix : List Char := ['.', 'u', 'm']

def read (flavor : Flavor) (c : Char) (cs : List Char) : Segment × Nat :=
  if c = '\\' then
    match escapeLength? cs with
    | some n => (escape, n)
    | none => (invalidEscape, (cs.take 1).length)
  else if c = '%' ∧ flavor = .format then
    match formatLength cs with
    | .ok n => (format, n)
    | .error n => (invalidFormat, n)
  else if opensName c ∧ flavor = .path then
    let n := runLength continuesName cs
    if moduleSuffix.isPrefixOf (cs.drop n) then (module (n + 1), n + moduleSuffix.length)
    else (text, n)
  else (text, 0)

def isText : Segment → Bool
  | text | invalidEscape | invalidFormat => true
  | _ => false

end Segment

end UmkaSyntax
