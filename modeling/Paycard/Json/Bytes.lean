import Paycard.Json.Tree

/-! # JSON in bytes

A text may come as bytes. Only ASCII characters can stand outside of strings, so bytes are cut into tokens
as characters are. The bytes of a string and of the characters that its escapes stand for must be UTF-8
together. A string where they are not is well formed, but it has no value.
-/

namespace Paycard.Json

/-- The text of a string literal whose plain pieces are bytes. -/
def Piece.utf8? (pieces : List Piece) : Option String := do
  let bytes ← joinWith? (fun byte => [byte.toUInt8]) String.utf8EncodeChar pieces
  String.fromUTF8? bytes.toByteArray

/-- The tokens of a text in bytes. -/
def tokensOfBytes (bytes : ByteArray) : List Token :=
  tokensWith Piece.utf8? (bytes.data.toList.map Char.ofUInt8)

/-- The value at the start of a text in bytes, whatever comes after it. -/
def Tree.ofBytes (bytes : ByteArray) : Tree := (ofTokens (tokensOfBytes bytes)).1

end Paycard.Json
