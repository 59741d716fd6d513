namespace UmkaSyntax

inductive Json
  | null
  | bool (value : Bool)
  | nat (value : Nat)
  | numeral (spelling : String)
  | string (value : String)
  | array (items : List Json)
  | object (members : List (String × Json))

namespace Json

/-- The value of a key. A later member hides an earlier one of the same key. -/
def member? : List (String × Json) → String → Option Json
  | [], _ => none
  | (key, value) :: more, wanted =>
      match member? more wanted with
      | some later => some later
      | none => if key == wanted then some value else none

def get? : Json → String → Option Json
  | object members, key => member? members key
  | _, _ => none

def string? : Json → Option String
  | string s => some s
  | _ => none

def nat? : Json → Option Nat
  | nat n => some n
  | _ => none

def bool? : Json → Option Bool
  | bool b => some b
  | _ => none

def array? : Json → Option (List Json)
  | array items => some items
  | _ => none

def ofOption {α : Type} (encode : α → Json) : Option α → Json
  | some a => encode a
  | none => null

def optional {α : Type} (key : String) (encode : α → Json) (value : Option α) :
    List (String × Json) :=
  (value.map fun a => (key, encode a)).toList

end Json

end UmkaSyntax
