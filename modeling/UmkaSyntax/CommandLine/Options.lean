import UmkaSyntax.Parsing.Parse

namespace UmkaSyntax.CommandLine

inductive Format
  | human | json | sExpression
  deriving DecidableEq

def Format.ofName? : String → Option Format
  | "human" => some human
  | "json" => some json
  | "sexp" => some sExpression
  | _ => none

structure Options where
  format : Option Format
  maxErrors : Nat
  files : List String
  colours : Bool

inductive OptionIssue
  | unknownFormat (name : String)
  | badNumber (text : String)
  | unknownOption (flag : String)

def OptionIssue.message : OptionIssue → String
  | unknownFormat name => "unknown format `" ++ name ++ "` (expected human, json or sexp)"
  | badNumber text => "--max-errors takes a number, got `" ++ text ++ "`"
  | unknownOption flag => "unknown option: " ++ flag

/-- Decimal digits, perhaps after a plus sign, of a number of at most 64 bits. -/
def number? (text : String) : Option Nat :=
  let digits := match text.toList with
    | '+' :: more => more
    | cs => cs
  if digits.isEmpty || !digits.all Char.isDigit then none
  else
    let n := decimalValue digits
    if n < UInt64.size then some n else none

structure OptionFailure where
  issue : OptionIssue
  sofar : Options

/-- Reads the arguments from left to right. An option at the end that lacks its value gets an empty
one. -/
def Options.read (sofar : Options) : List String → Except OptionFailure Options
  | [] => .ok sofar
  | "--format" :: args =>
      match args with
      | [] => .error ⟨.unknownFormat "", sofar⟩
      | name :: more => match Format.ofName? name with
          | some format => { sofar with format := some format }.read more
          | none => .error ⟨.unknownFormat name, sofar⟩
  | "--max-errors" :: args =>
      match args with
      | [] => .error ⟨.badNumber "", sofar⟩
      | text :: more => match number? text with
          | some n => { sofar with maxErrors := n }.read more
          | none => .error ⟨.badNumber text, sofar⟩
  | "--json" :: more => { sofar with format := some .json }.read more
  | "--no-color" :: more => { sofar with colours := false }.read more
  | arg :: more =>
      if "--".toList.isPrefixOf arg.toList then .error ⟨.unknownOption arg, sofar⟩
      else { sofar with files := sofar.files ++ [arg] }.read more

def Options.initial (colours : Bool) : Options := ⟨none, defaultMaxErrors, [], colours⟩

/-- Whether the environment asks for colours, which a pipe does not get unasked. -/
def coloursAsked (environment : String → Option String) : Bool :=
  (environment "NO_COLOR").isNone &&
    ((environment "FORCE_COLOR").isSome || (environment "CLICOLOR_FORCE").any (· != "0"))

end UmkaSyntax.CommandLine
