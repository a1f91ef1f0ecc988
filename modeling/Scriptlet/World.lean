import Scriptlet.Script

/-!
# The world of a program

A program asks what is found at a path, reads the lines that a user types, and writes to its two
outputs. It is one program in every world: in a terminal, or in a recorded world
(`World.recorded`), where the whole input is given beforehand and all that is written is kept.
-/

namespace Scriptlet

/-- What a program asks of the world that it runs in. -/
structure World (m : Type → Type) where
  find : String → m Found
  /-- The next line with its end; nothing at the end of the input. -/
  readLine : m (List UInt8)
  print : String → m Unit
  complain : String → m Unit

namespace World

/-- Writes to both outputs, and gives the exit code. -/
def write {m : Type → Type} [Monad m] (w : World m) (c : Console) : m Nat := do
  w.print c.out
  w.complain c.err
  return c.exitCode

end World

/-! ### The recorded world -/

/-- The input that is left, and what was written to the two outputs. -/
structure Transcript where
  input : List UInt8
  out : String := ""
  err : String := ""
deriving Inhabited

/-- The input up to and with its first line end, and what follows. -/
def Transcript.cutLine : List UInt8 → List UInt8 × List UInt8
  | [] => ([], [])
  | b :: rest =>
    if b = 10 then ([b], rest)
    else
      let cut := cutLine rest
      (b :: cut.1, cut.2)

/-- A world with these files, whose input is that of the transcript. -/
def World.recorded (find : String → Found) : World (StateM Transcript) where
  find path := return find path
  readLine := modifyGet fun t =>
    let cut := Transcript.cutLine t.input
    (cut.1, { t with input := cut.2 })
  print text := modify fun t => { t with out := t.out ++ text }
  complain text := modify fun t => { t with err := t.err ++ text }

/-- What a program writes to a transcript that starts with the input, and its exit code. -/
def Console.record (program : StateM Transcript Nat) (input : List UInt8) : Console :=
  let ended := program.run { input }
  ⟨ended.2.out, ended.2.err, ended.1⟩

end Scriptlet
