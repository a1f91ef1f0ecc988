import Scriptlet.Prompt

/-!
# The command line

The arguments name at most one script; without one the prompt is started. They are read from left to
right: the first that asks for help or for the version is obeyed, the first that is wrong ends it.
-/

namespace Scriptlet

inductive Invocation where
  | help
  | version
  | misuse
  | script (shown : Bool) (path : String)
  | prompt (shown : Bool)
deriving DecidableEq

namespace Invocation

/-- The invocation once all arguments are read. -/
def conclude (shown : Bool) : Option String → Invocation
  | some path => script shown path
  | none => prompt shown

/-- Reads arguments that are no options: one script at most, not an empty one. -/
def ofPaths (shown : Bool) : Option String → List String → Invocation
  | found, [] => conclude shown found
  | none, path :: rest => if path = "" then misuse else ofPaths shown (some path) rest
  | some _, _ :: _ => misuse

/-- Reads an argument that starts with a dash: only its first letter matters, for no letter that is
obeyed goes on. -/
def ofLetters : List Char → Invocation
  | 'h' :: _ => help
  | 'V' :: _ => version
  | _ => misuse

/-- Reads arguments, given whether the statements are to be shown and the script found so far. -/
def ofArgs (shown : Bool) (found : Option String) : List String → Invocation
  | [] => conclude shown found
  | "--" :: rest => ofPaths shown found rest
  | "--help" :: _ => help
  | "--version" :: _ => version
  | "--dump-ast" :: rest => if shown then misuse else ofArgs true found rest
  | arg :: rest =>
    match arg.toList with
    | [] => misuse
    | '-' :: letter :: letters => ofLetters (letter :: letters)
    | _ => if found.isSome then misuse else ofArgs shown (some arg) rest

def ofArguments (args : List String) : Invocation :=
  ofArgs false none args

end Invocation

namespace CommandLine

/-- The answer to a question for the version. -/
def versionText : String :=
  "slex 0.1.0\n"

def usageText : String :=
  Console.ofLines ["Usage: slex [OPTIONS] [SCRIPT]"]

/-- The answer to a question for help. -/
def helpText : String :=
  Console.ofLines
    ["Interpreter for the slex scripting language. Starts an interactive prompt when no script is "
      ++ "given",
     ""]
  ++ usageText
  ++ Console.ofLines
    ["",
     "Arguments:",
     "  [SCRIPT]  Script to run",
     "",
     "Options:",
     "      --dump-ast  Print every parsed statement to stderr before running it",
     "  -h, --help      Print help",
     "  -V, --version   Print version"]

/-- The exit code for wrong arguments. -/
def wrongUsage : Nat :=
  64

variable {m : Type → Type} [Monad m]

/-- Does what is asked for, and gives the exit code. -/
def perform (w : World m) : Invocation → m Nat
  | .help => w.write ⟨helpText, "", 0⟩
  | .version => w.write ⟨versionText, "", 0⟩
  | .misuse => w.write ⟨"", usageText, wrongUsage⟩
  | .script shown path => do w.write (Script.run shown path (← w.find path))
  | .prompt shown => Prompt.converse w shown .fresh

/-- The whole program. -/
def run (w : World m) (args : List String) : m Nat :=
  perform w (Invocation.ofArguments args)

end CommandLine

end Scriptlet
