/-!
# Text as bytes

Text is stored in UTF-8. Reading is strict (`Text.decode?`): an overlong form, a surrogate, a code
point past the last one, or a sequence cut short makes the whole text unreadable.
-/

namespace Scriptlet.Text

/-- The text that the bytes encode, if they encode one. -/
def decode? (bytes : List UInt8) : Option String :=
  String.fromUTF8? ⟨bytes.toArray⟩

def encode (s : String) : List UInt8 :=
  s.toUTF8.data.toList

end Scriptlet.Text
