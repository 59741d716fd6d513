import UmkaSyntax.Source.Basic
import UmkaSyntax.Text.Basic

namespace UmkaSyntax

structure LineTable where
  starts : List Nat

structure Position where
  line : Nat
  column : Nat
  deriving DecidableEq

namespace LineTable

def startsAfter : Nat → List Char → List Nat
  | _, [] => []
  | offset, c :: cs =>
      if c = '\n' then (offset + 1) :: startsAfter (offset + 1) cs
      else startsAfter (offset + c.utf8Size) cs

def ofText (cs : List Char) : LineTable := ⟨0 :: startsAfter 0 cs⟩

def count (table : LineTable) : Nat := table.starts.length

/-- The line that holds the offset is the last one that starts at or before it. Offsets are
32-bit words. -/
def position (table : LineTable) (offset : Nat) : Position :=
  let offset := offset % UInt32.size
  let index := table.starts.countP (· ≤ offset) - 1
  ⟨index + 1, offset - table.starts.getD index 0 + 1⟩

def line? (table : LineTable) (cs : List Char) (line : Nat) : Option (List Char) :=
  match table.starts.drop (line - 1) with
  | [] => none
  | start :: later =>
      if line = 0 then none else
        slice? cs ⟨start, match later with | next :: _ => next - 1 | [] => byteLength cs⟩

end LineTable

structure SourceFile where
  name : String
  text : List Char
  lines : LineTable

namespace SourceFile

def ofText (name : String) (text : List Char) : SourceFile := ⟨name, text, LineTable.ofText text⟩

/-- The text of a line without its end, and nothing for a line that is not there. -/
def line (file : SourceFile) (number : Nat) : List Char :=
  withoutReturn ((file.lines.line? file.text number).getD [])

end SourceFile

end UmkaSyntax
