/-!
# UTF-8

Text is written as bytes one character after the other. It is read back one byte
at a time by a machine that knows how many bytes of the current character are
missing and between which bounds the next of them must lie. A byte out of bounds
ends the character begun: that character is one invalid part, and the byte is
looked at anew. So every maximal part that no text begins with counts once, and
reading gives a list of characters and invalid parts.
-/

namespace PrattSyntax.Text

/-- The bytes of a text. -/
def encode (text : String) : List UInt8 :=
  text.toList.flatMap String.utf8EncodeChar

namespace Utf8

/-- Where the machine stands: between characters, or inside one with a count of
missing bytes, the bounds of the next, and the bits read so far. -/
inductive State where
  | start
  | inside (missing : Nat) (low high : UInt8) (bits : Nat)
deriving DecidableEq, Repr

/-- A first byte of a character: what it completes, and the state after it. -/
def first (byte : UInt8) : List (Option Char) × State :=
  if byte < 0x80 then ([some (Char.ofUInt8 byte)], .start)
  else if byte < 0xc2 then ([none], .start)
  else if byte < 0xe0 then ([], .inside 1 0x80 0xbf (byte.toNat - 0xc0))
  else if byte < 0xf0 then
    ([], .inside 2 (if byte = 0xe0 then 0xa0 else 0x80) (if byte = 0xed then 0x9f else 0xbf)
      (byte.toNat - 0xe0))
  else if byte < 0xf5 then
    ([], .inside 3 (if byte = 0xf0 then 0x90 else 0x80) (if byte = 0xf4 then 0x8f else 0xbf)
      (byte.toNat - 0xf0))
  else ([none], .start)

/-- One byte: what it completes, and the state after it. -/
def step : State → UInt8 → List (Option Char) × State
  | .start, byte => first byte
  | .inside missing low high bits, byte =>
      if low ≤ byte ∧ byte ≤ high then
        let more := 64 * bits + (byte.toNat - 0x80)
        if missing = 1 then ([some (Char.ofNat more)], .start)
        else ([], .inside (missing - 1) 0x80 0xbf more)
      else (none :: (first byte).1, (first byte).2)

/-- What the end of a text completes: a character begun is one invalid part. -/
def atEnd : State → List (Option Char)
  | .start => []
  | .inside _ _ _ _ => [none]

/-- The characters and invalid parts of a run of bytes. -/
def scan (state : State) : List UInt8 → List (Option Char)
  | [] => atEnd state
  | byte :: rest => (step state byte).1 ++ scan (step state byte).2 rest

end Utf8

/-- The text of a run of bytes, with U+FFFD for each invalid part. -/
def decodeLossy (bytes : List UInt8) : String :=
  String.ofList ((Utf8.scan .start bytes).map fun part => part.getD '\uFFFD')

/-- The text of a run of bytes without an invalid part. -/
def decode? (bytes : List UInt8) : Option String :=
  ((Utf8.scan .start bytes).mapM id).map String.ofList

/-- How many 16-bit units a text takes: one for each character, and one more for
each character from U+10000 on. -/
def units16 (text : String) : Nat :=
  text.toList.length + text.toList.countP fun char => 0x10000 ≤ char.toNat

end PrattSyntax.Text
