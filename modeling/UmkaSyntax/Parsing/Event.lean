namespace UmkaSyntax

/-- What a whole source is read as. -/
inductive Entry
  | program | type | expression
  deriving DecidableEq

inductive Level
  | trace | debug
  deriving DecidableEq

inductive Event
  | lexed (tokens errors : Nat)
  | readingType (bytes : Nat)
  | readingExpression (bytes : Nat)
  | declaration (offset : Nat)
  | skipped (tokens offset : Nat)
  | stuck (offset : Nat)
  | dropped (count limit : Nat)
  deriving DecidableEq

namespace Event

def level : Event → Level
  | lexed _ _ | declaration _ => .trace
  | _ => .debug

def message : Event → String
  | lexed tokens errors =>
      "lexed " ++ toString tokens ++ " tokens, " ++ toString errors ++ " errors"
  | readingType bytes => "parsing " ++ toString bytes ++ " bytes as a type"
  | readingExpression bytes => "parsing " ++ toString bytes ++ " bytes as an expression"
  | declaration offset => "declaration at byte " ++ toString offset
  | skipped tokens offset =>
      "recovery skipped " ++ toString tokens ++ " tokens up to byte " ++ toString offset
  | stuck offset => "no progress at byte " ++ toString offset ++ ", skipping one token"
  | dropped count limit =>
      "dropping " ++ toString count ++ " diagnostics past the limit of " ++ toString limit

def line (event : Event) : String :=
  (match event.level with | .trace => "TRACE " | .debug => "DEBUG ") ++ event.message

end Event

end UmkaSyntax
