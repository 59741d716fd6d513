import UmkaSyntax.Diagnostic.Basic
import UmkaSyntax.Diagnostic.Code
import UmkaSyntax.Diagnostic.Suggestion
import UmkaSyntax.Text.Basic
import UmkaSyntax.Text.Words

namespace UmkaSyntax

def ErrorKind.label : ErrorKind → String
  | lexical kind => kind.title
  | syntactic => "here"
  | unexpectedEnd => "file ends here"

def ErrorKind.note? : ErrorKind → Option String
  | lexical .unterminatedComment => some "the rest of the file is part of the comment"
  | _ => none

def ParseError.diagnostic (e : ParseError) : Diagnostic where
  code := e.kind.code
  message := e.message
  span := e.span
  label := e.kind.label
  note := e.kind.note?
  help := e.hint?
  misspelling := none

def canFollowKeyword (c : Char) : Bool := isAlphabetic c || c == '_' || c == '"' || c == '('

/-- The first word of the line that holds the offset, if it reads like a keyword and something that
can follow one comes after it. -/
def misspelling? (cs : List Char) (offset : Nat) : Option Misspelling := do
  let head := lastLine (← takeBytes? offset cs)
  let line := head ++ (← dropBytes? offset cs)
  let indent := runLength isBlank line
  let word := (line.drop indent).takeWhile isWordChar
  let next ← ((line.drop (indent + word.length)).dropWhile isBlank).head?
  let start := offset - byteLength head + indent
  if start ≤ offset ∧ canFollowKeyword next then
    let keyword ← intendedKeyword? (String.ofList word)
    return ⟨⟨start, start + byteLength word⟩, keyword⟩
  else none

def diagnose (cs : List Char) (e : ParseError) : Diagnostic :=
  if e.kind = .syntactic then
    match misspelling? cs e.span.start with
    | some m => e.diagnostic.suggest m
    | none => e.diagnostic
  else e.diagnostic

def diagnostics (cs : List Char) (errors : List ParseError) : List Diagnostic :=
  errors.map (diagnose cs)

end UmkaSyntax
