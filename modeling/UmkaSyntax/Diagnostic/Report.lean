import UmkaSyntax.Diagnostic.Code
import UmkaSyntax.Diagnostic.Render
import UmkaSyntax.Json.Printer
import UmkaSyntax.Tree.Encoding

namespace UmkaSyntax

def Misspelling.toJson (m : Misspelling) : Json :=
  .object [("span", m.span.toJson), ("keyword", .string m.keyword)]

def Diagnostic.members (d : Diagnostic) : List (String × Json) :=
  [("code", .string d.code), ("message", .string d.message), ("span", d.span.toJson),
    ("label", .string d.label)] ++
    Json.optional "note" .string d.note ++ Json.optional "help" .string d.help ++
    Json.optional "misspelling" Misspelling.toJson d.misspelling

structure LocatedDiagnostic where
  diagnostic : Diagnostic
  category : Option String
  start : Position
  stop : Position
  sourceLine : String
  mendedLine : Option String

namespace LocatedDiagnostic

def ofDiagnostic (file : SourceFile) (d : Diagnostic) : LocatedDiagnostic :=
  let start := file.lines.position d.span.start
  { diagnostic := d
    category := (ErrorKind.ofCode? d.code).map ErrorKind.category
    start := start
    stop := file.lines.position d.span.stop
    sourceLine := String.ofList (file.line start.line)
    mendedLine := d.misspelling.map fun m => String.ofList (m.mendedLine file.text) }

def place (p : Position) (offset : Nat) : Json :=
  .object [("line", .nat p.line), ("column", .nat p.column), ("offset", .nat offset)]

def toJson (located : LocatedDiagnostic) : Json :=
  let d := located.diagnostic
  .object (d.members ++ Json.optional "category" .string located.category ++
    [("start", place located.start d.span.start), ("end", place located.stop d.span.stop),
      ("source_line", .string located.sourceLine)] ++
    Json.optional "fixed_line" .string located.mendedLine)

end LocatedDiagnostic

structure Report where
  file : String
  diagnostics : List LocatedDiagnostic
  tree : Option Node

namespace Report

/-- Goes up when a member changes its meaning. -/
def version : Nat := 1

def ofDiagnostics (file : SourceFile) (ds : List Diagnostic) (tree : Option Node) : Report :=
  ⟨file.name, ds.map (LocatedDiagnostic.ofDiagnostic file), tree⟩

def toJson (report : Report) : Json :=
  .object ([("version", .nat version), ("file", .string report.file),
    ("success", .bool report.diagnostics.isEmpty),
    ("error_count", .nat report.diagnostics.length),
    ("diagnostics", .array (report.diagnostics.map LocatedDiagnostic.toJson))] ++
    Json.optional "tree" Node.toJson report.tree)

end Report

end UmkaSyntax
