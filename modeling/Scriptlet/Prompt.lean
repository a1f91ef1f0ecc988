import Scriptlet.Text.Blank
import Scriptlet.World

/-!
# The interactive prompt

The user types lines, each answered in one session, until a line says `exit` or the input ends. A
line that is no text ends the prompt with an error; no other error does.
-/

namespace Scriptlet

namespace Prompt

/-- What is written before each line is read. -/
def sign : String :=
  "> "

def farewell : String :=
  "exit"

/-- The exit code for input that is no text. -/
def badInput : Nat :=
  1

variable {m : Type → Type} [Monad m]

/-- Answers one line; the statements are shown if `shown`. If the prompt ends, it gives the exit
code instead of a session to go on with. -/
def turn (w : World m) (shown : Bool) (s : Session) : m (Session ⊕ Nat) := do
  w.print sign
  let line ← w.readLine
  if line = [] then
    return .inr 0
  match Text.decode? line with
  | none =>
    w.complain (Console.ofLines [Script.notText])
    return .inr badInput
  | some text =>
    if Text.trim text = farewell then
      return .inr 0
    let answer := s.runLine (Text.trim text)
    w.print answer.out
    w.complain (answer.err shown)
    return .inl answer.session

/-- The whole conversation. -/
def converse (w : World m) (shown : Bool) (s : Session) : m Nat :=
  repeatM (turn w shown) s

end Prompt

end Scriptlet
