import UmkaSyntax.Token.Vocabulary

namespace UmkaSyntax

/-- The entries of the row of a further character `a`. The entry in front of them is `left`, and
`above` is the previous row from the place of that entry on. -/
def rowEntries (a : Char) : List Char → Nat → List Nat → List Nat
  | b :: bs, left, corner :: up :: above =>
      let entry := min (min (up + 1) (left + 1)) (corner + if a = b then 0 else 1)
      entry :: rowEntries a bs entry (up :: above)
  | _, _, _ => []

def nextRow (bs : List Char) (row : List Nat) (a : Char) : List Nat :=
  let first := row.headD 0 + 1
  first :: rowEntries a bs first row

def levenshtein (as bs : List Char) : Nat :=
  ((as.foldl (nextRow bs) (List.range (bs.length + 1))).getLast?).getD 0

def toleratedDistance (length : Nat) : Nat :=
  if length ≤ 2 then 1 else if length ≤ 5 then 2 else 3

/-- The better of the best candidate so far and the next one. The word itself is no candidate, nor
is one whose length alone is too far off. -/
def closerCandidate (word : String) (best : Option (String × Nat)) (candidate : String) :
    Option (String × Nat) :=
  let limit := toleratedDistance word.length
  let lengths := max word.length candidate.length - min word.length candidate.length
  if candidate = word ∨ limit < lengths then best
  else
    let distance := levenshtein word.toList candidate.toList
    if distance ≤ limit ∧ best.all (distance < ·.2) then some (candidate, distance) else best

def nearest? (word : String) (candidates : List String) : Option String :=
  (candidates.foldl (closerCandidate word) none).map (·.1)

/-- The keyword that a word at the start of a declaration stands for. Words of one or two letters
are too near to everything. -/
def intendedKeyword? (word : String) : Option String :=
  if word.length < 3 then none else nearest? word (Keyword.declarations.map Keyword.spelling)

end UmkaSyntax
