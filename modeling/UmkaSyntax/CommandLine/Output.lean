import UmkaSyntax.Text.Styled

namespace UmkaSyntax.CommandLine

structure Output where
  status : Nat
  out : StyledText
  err : StyledText

namespace Output

def nothing : Output := ⟨0, [], []⟩

def print (text : StyledText) : Output := ⟨0, text, []⟩

def complain (text : StyledText) : Output := ⟨0, [], text⟩

def fail : Output := ⟨1, [], []⟩

def andThen (first second : Output) : Output :=
  ⟨max first.status second.status, first.out ++ second.out, first.err ++ second.err⟩

def inOrder (outputs : List Output) : Output := outputs.foldr andThen nothing

end Output

def errorLine (message : StyledText) : Output :=
  .complain (StyledText.line (.boldColour .red "error" ++ .plain ": " ++ message))

def banner (text : StyledText) : StyledText :=
  .dimmed "===" ++ .plain " " ++ text ++ .plain " " ++ .dimmed "==="

def okBanner (subject : String) : StyledText := banner (.boldColour .green (subject ++ " OK"))

def failBanner (subject : String) (errors : Nat) : StyledText :=
  let count := if errors = 1 then "1 error" else toString errors ++ " errors"
  banner (.boldColour .red (subject ++ " FAILED: " ++ count))

end UmkaSyntax.CommandLine
