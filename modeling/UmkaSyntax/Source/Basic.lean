/-!
Stretches of a source, and texts cut into tiles that leave no gap. Every offset counts bytes of the
UTF-8 text. A cut is made only between two characters; an offset inside a character or past the end
cuts nothing.
-/

namespace UmkaSyntax

/-- The bytes from `start` up to `stop`, which is not included. -/
structure Span where
  start : Nat
  stop : Nat
  deriving DecidableEq

namespace Span

def emptyAt (offset : Nat) : Span := ⟨offset, offset⟩

def length (s : Span) : Nat := s.stop - s.start

def isEmpty (s : Span) : Bool := s.start == s.stop

def cover (s t : Span) : Span := ⟨min s.start t.start, max s.stop t.stop⟩

def contains (s : Span) (offset : Nat) : Bool := s.start ≤ offset && offset < s.stop

end Span

def byteLength : List Char → Nat
  | [] => 0
  | c :: cs => c.utf8Size + byteLength cs

def dropBytes? : Nat → List Char → Option (List Char)
  | 0, cs => some cs
  | _ + 1, [] => none
  | n + 1, c :: cs => if c.utf8Size ≤ n + 1 then dropBytes? (n + 1 - c.utf8Size) cs else none

def takeBytes? : Nat → List Char → Option (List Char)
  | 0, _ => some []
  | _ + 1, [] => none
  | n + 1, c :: cs =>
      if c.utf8Size ≤ n + 1 then (takeBytes? (n + 1 - c.utf8Size) cs).map (c :: ·) else none

/-- The text of the span, if both of its ends are character boundaries in order. -/
def slice? (cs : List Char) (span : Span) : Option (List Char) :=
  if span.start ≤ span.stop then
    (dropBytes? span.start cs).bind (takeBytes? span.length)
  else none

structure Tile (α : Type) where
  what : α
  span : Span
  text : List Char

/-- What starts with the given character, and the number of characters after it that belong to
it. -/
abbrev Reader (α : Type) := Char → List Char → α × Nat

/-- The tiles of the text at `offset`, after `skip` characters that belong to an earlier tile. -/
def tilesAfter {α : Type} (read : Reader α) : Nat → Nat → List Char → List (Tile α)
  | _, _, [] => []
  | offset, 0, c :: cs =>
      let (what, more) := read c cs
      let text := c :: cs.take more
      ⟨what, ⟨offset, offset + byteLength text⟩, text⟩ ::
        tilesAfter read (offset + c.utf8Size) more cs
  | offset, skip + 1, c :: cs => tilesAfter read (offset + c.utf8Size) skip cs

def tiles {α : Type} (read : Reader α) (offset : Nat) (cs : List Char) : List (Tile α) :=
  tilesAfter read offset 0 cs

end UmkaSyntax
