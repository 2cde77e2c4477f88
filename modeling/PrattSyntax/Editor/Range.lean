import PrattSyntax.Diagnostic.Basic
import PrattSyntax.Parser.Program
import PrattSyntax.Text.Line
import PrattSyntax.Text.Slice
import PrattSyntax.Text.Utf8

/-!
# Diagnostics for editors

An editor counts lines and characters from zero, and characters in 16-bit units.
A position is converted on the bytes of its line, where lines end at line feeds
only. A stretch without width is shown one unit wide. Which places can be sent to
an editor is a matter of the protocol, so a document is published under a check of
places that is given.
-/

namespace PrattSyntax.Editor

/-- A place as an editor counts it. -/
structure Place where
  line : Int
  character : Int
deriving DecidableEq, Repr

/-- A message over a range of a document. -/
structure Marker where
  message : String
  start : Place
  stop : Place
  severity : String := "Error"
  source : String := "monkey"
deriving DecidableEq, Repr

/-- A position on one of the given lines; on no line the column itself counts. -/
def Place.ofPosition (lines : List (List UInt8)) (line column : Int) : Place :=
  let index := line - 1
  if 0 ≤ index ∧ index < lines.length then
    let before := Text.slice 0 (column - 1) ((lines[index.toNat]?).getD [])
    ⟨index, Text.units16 (Text.decodeLossy before)⟩
  else ⟨index, column - 1⟩

/-- The place after a stretch that begins at `start`, at least one unit on. -/
def Place.visibleStop (start stop : Place) : Place :=
  if stop = start then ⟨start.line, start.character + 1⟩ else stop

/-- A diagnostic over a document with the given lines. Without a span it is shown
at the start. -/
def Marker.ofDiagnostic (lines : List (List UInt8)) (diagnostic : Diagnostic) : Marker :=
  match diagnostic.span with
  | none => { message := diagnostic.message, start := ⟨0, 0⟩, stop := ⟨0, 0⟩ }
  | some span =>
      let start := Place.ofPosition lines span.start.line span.start.column
      let stop := Place.ofPosition lines span.stop.line span.stop.column
      { message := diagnostic.message, start, stop := start.visibleStop stop }

/-- The bytes of a document line by line. -/
def documentLines (bytes : List UInt8) : List (List UInt8) :=
  Text.splitAt Byte.lineFeed bytes

/-- Everything held against a document. -/
def markers (text : String) : List Marker :=
  let bytes := Text.encode text
  let lines := documentLines bytes
  (parse bytes).faults.map fun fault => Marker.ofDiagnostic lines fault.diagnostic

/-- What is published about a document under its address. -/
structure Publication where
  address : String
  markers : List Marker
deriving DecidableEq, Repr

section

variable {Refusal : Type}

/-- The marker, if both of its places are accepted. -/
def Marker.checked (accept : Place → Except Refusal Unit) (marker : Marker) :
    Except Refusal Marker := do
  accept marker.start
  accept marker.stop
  return marker

/-- Opening a document, and every change of it, publishes all that is held
against its new text, unless a place in it is not accepted. -/
def publish (accept : Place → Except Refusal Unit) (address text : String) :
    Except Refusal Publication :=
  ((markers text).mapM (Marker.checked accept)).map fun checked => ⟨address, checked⟩

end

end PrattSyntax.Editor
