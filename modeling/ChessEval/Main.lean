/-
  ChessEval.Main — the command: reads the three files, runs, prints and exits.
-/

import ChessEval.CommandLine

namespace ChessEval

def readFile (path : String) : IO FileRead := do
  try
    return ⟨path, .ok (← IO.FS.readBinFile path)⟩
  catch e =>
    return ⟨path, .error (toString e)⟩

end ChessEval

def main (args : List String) : IO UInt32 := do
  let files ← (args.take 3).mapM ChessEval.readFile
  let read (path : String) : ChessEval.FileRead := (files.find? (·.path = path)).getD ⟨path, .error "not read"⟩
  let outcome := ChessEval.CommandLine.run read args
  outcome.out.forM IO.println
  outcome.err.forM IO.eprintln
  return .ofNat outcome.exit
