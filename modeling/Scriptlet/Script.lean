import Scriptlet.Console
import Scriptlet.Text.Encoding

/-!
# Running a script

A script is a file of text. A file that cannot be read is reported with its path and the reason.
-/

namespace Scriptlet

/-- What is found at a path; it may lead through a file as if that were a directory. -/
inductive Found where
  | missing
  | directory
  | beyondFile
  | file (bytes : List UInt8)
  | refused (reason : String)

structure Unreadable where
  path : String
  reason : String
deriving DecidableEq

def Unreadable.message (u : Unreadable) : String :=
  "could not read '" ++ u.path ++ "': " ++ u.reason

namespace Script

/-- Why bytes are no text. -/
def notText : String :=
  "stream did not contain valid UTF-8"

def read (path : String) : Found → Except Unreadable String
  | .missing => .error ⟨path, "No such file or directory (os error 2)"⟩
  | .directory => .error ⟨path, "Is a directory (os error 21)"⟩
  | .beyondFile => .error ⟨path, "Not a directory (os error 20)"⟩
  | .refused reason => .error ⟨path, reason⟩
  | .file bytes =>
    match Text.decode? bytes with
    | some text => .ok text
    | none => .error ⟨path, notText⟩

/-- Runs the script at a path in a fresh session. -/
def answer (path : String) (found : Found) : Except Unreadable Answer :=
  (read path found).map Session.fresh.run

/-- The exit code for a script that cannot be read. -/
def noInput : Nat :=
  66

/-- Runs the script at a path as a program does; the statements are shown if `shown`. -/
def run (shown : Bool) (path : String) (found : Found) : Console :=
  match answer path found with
  | .ok a => ⟨a.out, a.err shown, a.status.exitCode⟩
  | .error u => ⟨"", Console.ofLines [u.message], noInput⟩

end Script

end Scriptlet
