import DomainSql.Console

/-!
# Command line

The program reads its two files from the working directory and its lines from
standard input.
-/

open DomainSql

/-- The contents of a file, or nothing if it cannot be opened. -/
def contentsOf (path : String) : IO FileContents := do
  try
    let bytes ← IO.FS.readBinFile path
    pure (some bytes)
  catch _ =>
    pure none

/-- Answer the lines of standard input until one of them quits. -/
partial def answerLines (console : Console) : IO Unit := do
  let line ← (← IO.getStdin).getLine
  if line.isEmpty then
    pure ()
  else
    match console.respond line with
    | (.quit, _) => pure ()
    | (reply, next) =>
        IO.print (Console.shown reply)
        answerLines next

/-- Start the console and answer the lines of standard input. -/
def main : IO Unit := do
  let foreignKeysFile ← contentsOf Console.foreignKeysPath
  let settingsFile ← contentsOf Console.settingsPath
  let (console, header) := Console.start foreignKeysFile settingsFile
  IO.print header
  answerLines console
