/-!
# Text as bytes

The body of a message is bytes, while a caller often has text: its UTF-8 encoding is meant.
A variable of the environment is bytes too, and counts as text only where they decode.
-/

namespace Batchflow.Text

def utf8Encode (s : String) : List UInt8 := s.toUTF8.toList

def utf8Decode? (bytes : List UInt8) : Option String := String.fromUTF8? (ByteArray.mk bytes.toArray)

end Batchflow.Text
