/-!
# Text as bytes
-/

namespace ClaimRelay.Text

def utf8 (s : String) : List UInt8 := s.toUTF8.data.toList

/-- The text that bytes are the UTF-8 of, if they are. -/
def ofUtf8? (bytes : List UInt8) : Option String := String.fromUTF8? ⟨bytes.toArray⟩

end ClaimRelay.Text
