import Scriptlet.Session

/-!
# What a user sees

A console holds what a program wrote to its two outputs and its exit code. The answers of a session
are written line by line: the printed lines to the output; the reports of a source with errors, the
statements if they are to be shown, and the report of a fault to the error output, in this order.
-/

namespace Scriptlet

/-- What a program wrote, and its exit code. -/
structure Console where
  out : String
  err : String
  exitCode : Nat
deriving DecidableEq

namespace Console

/-- Lines, each with its end. -/
def ofLines (lines : List String) : String :=
  String.join (lines.map (· ++ "\n"))

end Console

namespace Answer

def out (a : Answer) : String :=
  Console.ofLines a.printed

/-- The error output of an answer. The statements are shown if `shown`. -/
def err (a : Answer) (shown : Bool) : String :=
  let (faults, errors) := a.reports.partition fun r => r.kind = .runtime
  Console.ofLines (errors.map Report.text ++ (if shown then a.program.map Stmt.prefixForm else [])
    ++ faults.map Report.text)

end Answer

end Scriptlet
