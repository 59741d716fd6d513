import UmkaSyntax.CommandLine.Commands

namespace UmkaSyntax

open CommandLine in
def readFailure : IO.Error → ReadFailure
  | .noFileOrDirectory .. => .missing
  | .permissionDenied .. => .denied
  | e => .other (toString e)

open CommandLine in
def readPath (path : String) : IO (Except ReadFailure String) := do
  try
    if ← (System.mkFilePath [path]).isDir then return .error .directory
    let bytes ← IO.FS.readBinFile path
    match String.fromUTF8? bytes with
    | some text => return .ok text
    | none => return .error .notText
  catch e => return .error (readFailure e)

def runMain (args : List String) : IO UInt32 := do
  let files ← args.mapM fun path => do return (path, ← readPath path)
  let settings ← ["NO_COLOR", "FORCE_COLOR", "CLICOLOR_FORCE"].mapM fun name => do
    return (name, ← IO.getEnv name)
  let disk (path : String) := (files.lookup path).getD (.error .missing)
  let finished := CommandLine.run disk (fun name => (settings.lookup name).join) args
  (← IO.getStdout).putStr finished.out
  (← IO.getStderr).putStr finished.err
  return finished.status.toUInt32

end UmkaSyntax

def main (args : List String) : IO UInt32 := UmkaSyntax.runMain args
