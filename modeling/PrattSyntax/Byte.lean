/-!
# Byte classes

Source text is read as bytes. A byte starts a token according to its class, and
the classes below are pairwise disjoint. Only ASCII bytes are letters, digits or
blanks; every byte from `0x80` up is wide, whether or not it is part of a
well-formed character.
-/

namespace PrattSyntax.Byte

/-- The byte that ends a line. -/
def lineFeed : UInt8 := 0x0a

/-- The byte of `=`. -/
def equals : UInt8 := 0x3d

/-- The byte of `!`. -/
def bang : UInt8 := 0x21

/-- ASCII letters and the underscore. -/
def isLetter (byte : UInt8) : Bool :=
  (0x61 ≤ byte && byte ≤ 0x7a) || (0x41 ≤ byte && byte ≤ 0x5a) || byte == 0x5f

/-- ASCII decimal digits. -/
def isDigit (byte : UInt8) : Bool :=
  0x30 ≤ byte && byte ≤ 0x39

/-- The space and the five control bytes from tab to carriage return. -/
def isBlank (byte : UInt8) : Bool :=
  byte == 0x20 || (0x09 ≤ byte && byte ≤ 0x0d)

/-- Bytes outside ASCII. -/
def isWide (byte : UInt8) : Bool :=
  0x80 ≤ byte

/-- The byte with a given value; an integer outside `0..255` is no byte. -/
def ofInt? (value : Int) : Option UInt8 :=
  if 0 ≤ value ∧ value < 256 then some (UInt8.ofNat value.toNat) else none

/-- Bytes read as characters, one each. Used where every byte is ASCII. -/
def text (bytes : List UInt8) : String :=
  String.ofList (bytes.map Char.ofUInt8)

end PrattSyntax.Byte
