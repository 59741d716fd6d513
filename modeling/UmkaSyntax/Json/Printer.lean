import UmkaSyntax.Json.Basic

/-!
The layout of JSON in reports. Every item and member stands on a line of its own, two spaces
deeper than the brackets around it; empty arrays and objects take no line. Only quotes,
backslashes and control characters are escaped.
-/

namespace UmkaSyntax.Json

def hexByte (n : Nat) : List Char := [Nat.digitChar (n / 16), Nat.digitChar (n % 16)]

def escape (c : Char) : List Char :=
  if c = '"' then ['\\', '"']
  else if c = '\\' then ['\\', '\\']
  else if c = '\x08' then ['\\', 'b']
  else if c = '\t' then ['\\', 't']
  else if c = '\n' then ['\\', 'n']
  else if c = '\x0c' then ['\\', 'f']
  else if c = '\r' then ['\\', 'r']
  else if c.toNat < 0x20 then ['\\', 'u', '0', '0'] ++ hexByte c.toNat
  else [c]

def writeString (s : String) (after : List Char) : List Char :=
  '"' :: s.toList.flatMap escape ++ '"' :: after

def newline (indent : Nat) (after : List Char) : List Char :=
  '\n' :: List.replicate (2 * indent) ' ' ++ after

mutual

/-- A value in front of the given text, inside of `indent` brackets. -/
def write (indent : Nat) : Json → List Char → List Char
  | .null, after => "null".toList ++ after
  | .bool true, after => "true".toList ++ after
  | .bool false, after => "false".toList ++ after
  | .nat n, after => Nat.toDigits 10 n ++ after
  | .numeral s, after => s.toList ++ after
  | .string s, after => writeString s after
  | .array [], after => '[' :: ']' :: after
  | .array (item :: items), after =>
      '[' :: newline (indent + 1) (write (indent + 1) item (writeItems indent items after))
  | .object [], after => '{' :: '}' :: after
  | .object ((key, value) :: members), after =>
      '{' :: newline (indent + 1) (writeString key
        (':' :: ' ' :: write (indent + 1) value (writeMembers indent members after)))

def writeItems (indent : Nat) : List Json → List Char → List Char
  | [], after => newline indent (']' :: after)
  | item :: items, after =>
      ',' :: newline (indent + 1) (write (indent + 1) item (writeItems indent items after))

def writeMembers (indent : Nat) : List (String × Json) → List Char → List Char
  | [], after => newline indent ('}' :: after)
  | (key, value) :: members, after =>
      ',' :: newline (indent + 1) (writeString key
        (':' :: ' ' :: write (indent + 1) value (writeMembers indent members after)))

end

def pretty (value : Json) : String := String.ofList (value.write 0 [])

end UmkaSyntax.Json
