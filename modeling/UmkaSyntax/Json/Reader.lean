import UmkaSyntax.Json.Basic
import UmkaSyntax.Source.Basic
import UmkaSyntax.Text.Basic

namespace UmkaSyntax.Json

def stringRest? : List Char → Option Nat
  | [] => none
  | '"' :: _ => some 1
  | '\\' :: _ :: cs => (stringRest? cs).map (· + 2)
  | _ :: cs => (stringRest? cs).map (· + 1)

def hexValue? (c : Char) : Option Nat :=
  if c.isDigit then some (c.toNat - '0'.toNat)
  else if 'a' ≤ c ∧ c ≤ 'f' then some (c.toNat - 'a'.toNat + 10)
  else if 'A' ≤ c ∧ c ≤ 'F' then some (c.toNat - 'A'.toNat + 10)
  else none

def codeUnit? (a b c d : Char) : Option Nat := do
  return (((← hexValue? a) * 16 + (← hexValue? b)) * 16 + (← hexValue? c)) * 16 + (← hexValue? d)

def scalar? (n : Nat) : Option Char :=
  if n.isValidChar then some (Char.ofNat n) else none

def pair? (high low : Nat) : Option Char :=
  if 0xD800 ≤ high ∧ high < 0xDC00 ∧ 0xDC00 ≤ low ∧ low < 0xE000 then
    scalar? (0x10000 + (high - 0xD800) * 0x400 + (low - 0xDC00))
  else none

def unescapeLetter? : Char → Option Char
  | '"' => some '"'
  | '\\' => some '\\'
  | '/' => some '/'
  | 'b' => some '\x08'
  | 't' => some '\t'
  | 'n' => some '\n'
  | 'f' => some '\x0c'
  | 'r' => some '\r'
  | _ => none

def unescape? : List Char → Option (List Char)
  | [] => some []
  | '\\' :: 'u' :: a :: b :: c :: d :: '\\' :: 'u' :: e :: f :: g :: h :: cs => do
      let first ← codeUnit? a b c d
      let second ← codeUnit? e f g h
      match scalar? first, scalar? second, pair? first second with
      | _, _, some paired => return paired :: (← unescape? cs)
      | some one, some other, none => return one :: other :: (← unescape? cs)
      | some one, none, none =>
          return one :: (← unescape? ('\\' :: 'u' :: e :: f :: g :: h :: cs))
      | none, _, none => none
  | '\\' :: 'u' :: a :: b :: c :: d :: cs => do
      return (← scalar? (← codeUnit? a b c d)) :: (← unescape? cs)
  | '\\' :: c :: cs => do return (← unescapeLetter? c) :: (← unescape? cs)
  | c :: cs => if c.toNat < 0x20 then none else do return c :: (← unescape? cs)

def isNatural (cs : List Char) : Bool :=
  match cs with
  | [] => false
  | ['0'] => true
  | c :: more => c != '0' && c.isDigit && more.all Char.isDigit

def isPower : List Char → Bool
  | [] => true
  | e :: cs =>
      let digits := match cs with
        | '+' :: more | '-' :: more => more
        | _ => cs
      (e == 'e' || e == 'E') && !digits.isEmpty && digits.all Char.isDigit

def isFractionAndPower : List Char → Bool
  | '.' :: cs => runLength Char.isDigit cs != 0 && isPower (cs.dropWhile Char.isDigit)
  | cs => isPower cs

def isUnsignedNumber (cs : List Char) : Bool :=
  isNatural (cs.takeWhile Char.isDigit) && isFractionAndPower (cs.dropWhile Char.isDigit)

def number? (cs : List Char) : Option Json :=
  if isNatural cs then some (nat (decimalValue cs))
  else
    let unsigned := match cs with
      | '-' :: more => more
      | _ => cs
    if isUnsignedNumber unsigned then some (numeral (String.ofList cs)) else none

inductive Symbol
  | scalar (value : Json)
  | openBracket | closeBracket | openBrace | closeBrace | colon | comma

inductive Lexeme
  | space | invalid
  | symbol (s : Symbol)

def isJsonSpace (c : Char) : Bool := c == ' ' || c == '\n' || c == '\r' || c == '\t'

def continuesNumber (c : Char) : Bool := c.isDigit || "+-.eE".toList.contains c

def word? : List Char → Option Json
  | ['n', 'u', 'l', 'l'] => some null
  | ['t', 'r', 'u', 'e'] => some (bool true)
  | ['f', 'a', 'l', 's', 'e'] => some (bool false)
  | _ => none

def scalarOr (value : Option Json) (more : Nat) : Lexeme × Nat :=
  match value with
  | some value => (.symbol (.scalar value), more)
  | none => (.invalid, more)

def readLexeme (c : Char) (cs : List Char) : Lexeme × Nat :=
  if isJsonSpace c then (.space, runLength isJsonSpace cs)
  else if c = '"' then
    match stringRest? cs with
    | some n => scalarOr ((unescape? (cs.take (n - 1))).map fun s => string (String.ofList s)) n
    | none => (.invalid, 0)
  else if c = '-' ∨ c.isDigit then
    scalarOr (number? (c :: cs.takeWhile continuesNumber)) (runLength continuesNumber cs)
  else if c.isAlpha then
    scalarOr (word? (c :: cs.takeWhile Char.isAlpha)) (runLength Char.isAlpha cs)
  else match c with
    | '[' => (.symbol .openBracket, 0)
    | ']' => (.symbol .closeBracket, 0)
    | '{' => (.symbol .openBrace, 0)
    | '}' => (.symbol .closeBrace, 0)
    | ':' => (.symbol .colon, 0)
    | ',' => (.symbol .comma, 0)
    | _ => (.invalid, 0)

def symbols? : List (Tile Lexeme) → Option (List Symbol)
  | [] => some []
  | tile :: tiles => match tile.what with
      | .space => symbols? tiles
      | .symbol s => (symbols? tiles).map (s :: ·)
      | .invalid => none

mutual

def value? : Nat → List Symbol → Option (Json × List Symbol)
  | 0, _ => none
  | _ + 1, .scalar value :: rest => some (value, rest)
  | _ + 1, .openBracket :: .closeBracket :: rest => some (array [], rest)
  | bound + 1, .openBracket :: rest => do
      let (items, rest) ← items? bound rest
      return (array items, rest)
  | _ + 1, .openBrace :: .closeBrace :: rest => some (object [], rest)
  | bound + 1, .openBrace :: rest => do
      let (members, rest) ← members? bound rest
      return (object members, rest)
  | _ + 1, _ => none

def items? : Nat → List Symbol → Option (List Json × List Symbol)
  | 0, _ => none
  | bound + 1, symbols => do
      match ← value? bound symbols with
      | (item, .closeBracket :: rest) => return ([item], rest)
      | (item, .comma :: rest) =>
          let (items, rest) ← items? bound rest
          return (item :: items, rest)
      | _ => none

def members? : Nat → List Symbol → Option (List (String × Json) × List Symbol)
  | bound + 1, .scalar (.string key) :: .colon :: symbols => do
      match ← value? bound symbols with
      | (value, .closeBrace :: rest) => return ([(key, value)], rest)
      | (value, .comma :: rest) =>
          let (members, rest) ← members? bound rest
          return ((key, value) :: members, rest)
      | _ => none
  | _, _ => none

end

def read? (cs : List Char) : Option Json := do
  let symbols ← symbols? (tiles readLexeme 0 cs)
  match ← value? (symbols.length + 1) symbols with
  | (value, []) => return value
  | _ => none

end UmkaSyntax.Json
