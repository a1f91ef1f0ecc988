import Scriptlet.CommandLine

/-!
# The program

The outer layer: the world of a terminal.
-/

namespace Scriptlet.Terminal

/-- What is found at a path of the file system. -/
def findFile (path : String) : IO Found := do
  try
    let bytes ← IO.FS.readBinFile path
    return .file bytes.toList
  catch e =>
    match e with
    | .noFileOrDirectory _ _ _ => return .missing
    | .inappropriateType _ code _ => return if code = 20 then .beyondFile else .directory
    | _ => return .refused (toString e)

/-- Reads a line with its end; nothing at the end of the input. -/
def readLine (input : IO.FS.Stream) : IO (List UInt8) := do
  let mut line := ByteArray.empty
  repeat
    let next ← input.read 1
    line := line ++ next
    if next.isEmpty ∨ next.toList = [10] then break
  return line.toList

def world : World IO where
  find := findFile
  readLine := do readLine (← IO.getStdin)
  print text := do
    IO.print text
    (← IO.getStdout).flush
  complain text := IO.eprint text

end Scriptlet.Terminal

open Scriptlet

/-- Runs a script, or the prompt. -/
def main (args : List String) : IO UInt32 := do
  return (← CommandLine.run Terminal.world args).toUInt32
