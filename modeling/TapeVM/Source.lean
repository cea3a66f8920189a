import TapeVM.Symbol

/-! Program sources. A source is read byte by byte; a text stands for its UTF-8 bytes. -/
namespace TapeVM

inductive Source where
  | text (characters : String)
  | bytes (content : List UInt8)

namespace Source

def toBytes : Source → List UInt8
  | text characters => characters.toList.flatMap String.utf8EncodeChar
  | bytes content => content

/-- The characters shown when a source is quoted back: those of a text as they are, and one for
each byte otherwise. -/
def toCharacters : Source → List Char
  | text characters => characters.toList
  | bytes content => content.map Char.ofUInt8

def symbols (source : Source) : List Symbol :=
  source.toBytes.filterMap Symbol.ofByte?

/-- What is left of a source when its comments are deleted. -/
def symbolText (source : Source) : String :=
  String.ofList (source.symbols.map Symbol.char)

end Source
end TapeVM
