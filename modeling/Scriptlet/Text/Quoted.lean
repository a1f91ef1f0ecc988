import Scriptlet.Text.Extending
import Scriptlet.Text.Ignorable
import Scriptlet.Text.Unprintable

/-!
# Quoted text

Text between double quotes, with an escape for every character that would not show as itself.
-/

namespace Scriptlet.Text

/-- The escape of a character by its code point, in hexadecimal without leading zeros. -/
def codePointEscape (c : Char) : List Char :=
  ['\\', 'u', '\x7b'] ++ Nat.toDigits 16 c.toNat ++ ['\x7d']

/-- Whether a character would not show as itself: it shows nothing, or it joins the one before. -/
def isHidden (c : Char) : Bool :=
  unprintable.contains c || ignorable.contains c || extending.contains c

def quotedChar (c : Char) : List Char :=
  match c with
  | '\x00' => ['\\', '0']
  | '\t' => ['\\', 't']
  | '\n' => ['\\', 'n']
  | '\r' => ['\\', 'r']
  | '"' => ['\\', '"']
  | '\\' => ['\\', '\\']
  | c => if isHidden c then codePointEscape c else [c]

def quoted (s : String) : String :=
  String.ofList ('"' :: s.toList.flatMap quotedChar ++ ['"'])

end Scriptlet.Text
