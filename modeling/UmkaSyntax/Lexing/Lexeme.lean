import UmkaSyntax.Text.Basic
import UmkaSyntax.Token.Basic

/-!
The lexical grammar: what stands at one place of a source, and how far it reaches. A lexeme is
always the longest one that fits.
-/

namespace UmkaSyntax

inductive Lexeme
  /-- Only a block comment can be left open. -/
  | trivia (kind : TriviaKind) (closed : Bool)
  | token (kind : TokenKind)
  deriving DecidableEq

namespace Lexeme

def hexTail : List Char → Nat
  | 'x' :: cs => match runLength isHexDigit cs with | 0 => 0 | n + 1 => n + 2
  | _ => 0

def fraction : List Char → Nat
  | '.' :: cs => match runLength Char.isDigit cs with | 0 => 0 | n + 1 => n + 2
  | _ => 0

def exponent : List Char → Nat
  | [] => 0
  | c :: cs =>
      if c = 'e' ∨ c = 'E' then
        let sign := if cs.head? = some '-' then 1 else 0
        match runLength Char.isDigit (cs.drop sign) with | 0 => 0 | n + 1 => n + 2 + sign
      else 0

def number : Char → List Char → TokenKind × Nat := fun first cs =>
  let whole := runLength Char.isDigit cs
  let hex := if first = '0' ∧ whole = 0 then hexTail cs else 0
  if hex ≠ 0 then (.hexNumber, hex) else
    let tail := cs.drop whole
    let point := fraction tail
    let power := exponent (tail.drop point)
    (if point = 0 ∧ power = 0 then .decNumber else .realNumber, whole + point + power)

/-- The rest of a literal: up to its closing quote, else up to the end of the line. -/
def literalRest (cs : List Char) : Bool × Nat :=
  let body := runLength (fun c => c != '"' && c != '\n') cs
  match cs.drop body with
  | '"' :: _ => (true, body + 1)
  | _ => (false, body)

/-- The rest of a block comment. Comments do not nest. -/
def commentRest : List Char → Bool × Nat
  | [] => (false, 0)
  | c :: cs =>
      if c = '*' ∧ cs.head? = some '/' then (true, 2)
      else let (closed, n) := commentRest cs; (closed, n + 1)

def punctuation (c : Char) (next : Option Char) : Option (Punct × Nat) :=
  match c, next with
  | ':', some ':' => some (.colonColon, 1)
  | ':', some '=' => some (.colonEqual, 1)
  | '.', some '.' => some (.dotDot, 1)
  | ':', _ => some (.colon, 0)
  | '=', _ => some (.equal, 0)
  | '*', _ => some (.star, 0)
  | '^', _ => some (.caret, 0)
  | ',', _ => some (.comma, 0)
  | '{', _ => some (.leftBrace, 0)
  | '}', _ => some (.rightBrace, 0)
  | '(', _ => some (.leftParen, 0)
  | ')', _ => some (.rightParen, 0)
  | '[', _ => some (.leftBracket, 0)
  | ']', _ => some (.rightBracket, 0)
  | _, _ => none

def isSpace (c : Char) : Bool := isBlank c || c == '\r'

/-- The lexeme that starts with the given character, and the number of characters after it. -/
def read (c : Char) (cs : List Char) : Lexeme × Nat :=
  if isSpace c then (trivia .whitespace true, runLength isSpace cs)
  else if c.isDigit then let (kind, n) := number c cs; (token kind, n)
  else if opensName c then (token .name, runLength continuesName cs)
  else if c = '"' then let (closed, n) := literalRest cs; (token (.string closed), n)
  else if c = '\'' then let (closed, n) := literalRest cs; (token (.character closed), n)
  else if c = '/' ∧ cs.head? = some '/' then
    (trivia .lineComment true, runLength (· != '\n') cs)
  else if c = '/' ∧ cs.head? = some '*' then
    let (closed, n) := commentRest (cs.drop 1); (trivia .blockComment closed, n + 1)
  else if c = '\n' then (token .newline, 0)
  else if c = ';' then (token .semicolon, 0)
  else match punctuation c cs.head? with
    | some (p, n) => (token (.punct p), n)
    | none => (token .unknown, 0)

end Lexeme

end UmkaSyntax
