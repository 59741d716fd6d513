import UmkaSyntax.Source.Basic
import UmkaSyntax.Text.Basic

namespace UmkaSyntax

structure Misspelling where
  span : Span
  keyword : String
  deriving DecidableEq

structure Diagnostic where
  code : String
  message : String
  span : Span
  label : String
  note : Option String
  help : Option String
  misspelling : Option Misspelling
  deriving DecidableEq

def Misspelling.mendedLine (m : Misspelling) (cs : List Char) : List Char :=
  let before := ((takeBytes? m.span.start cs).map lastLine).getD []
  let after := ((dropBytes? m.span.stop cs).map firstLine).getD []
  before ++ m.keyword.toList ++ withoutReturn after

namespace Diagnostic

def new (code message : String) (span : Span) (label : String) : Diagnostic :=
  ⟨code, message, span, label, none, none, none⟩

def addNote (note : String) (d : Diagnostic) : Diagnostic := { d with note := some note }

def setHelp (help : String) (d : Diagnostic) : Diagnostic := { d with help := some help }

def suggest (m : Misspelling) (d : Diagnostic) : Diagnostic :=
  { d with help := some ("did you mean `" ++ m.keyword ++ "`?"), misspelling := some m }

end Diagnostic

end UmkaSyntax
