import PrattSyntax.Text.Utf8
import PrattSyntax.Toml.Entry

/-!
# Settings files

A settings file is a table, built up statement by statement. A header opens a table for the
entries that follow, and opens it once, or adds a table to an array and opens that; a table
that dotted keys have made counts as opened when the next header comes; a table on one line
or an array among the entries is complete.
-/

namespace PrattSyntax.Toml

/-- A settings file while it is read: the table so far, the open header, the tables that no
header may open again, those that join them at the next header, and the values that are
complete. -/
structure Document where
  root : Table := []
  header : Key := []
  opened : List Key := []
  pending : List Key := []
  completed : List Key := []

namespace Document

/-- Whether a key lies in a complete value or is one. -/
def isComplete (document : Document) (path : Key) : Bool :=
  document.completed.any (·.isPrefixOf path)

/-- The document behind the header of a table. -/
def openTable (document : Document) (path : Key) : Except Cause Document := do
  let opened := document.pending ++ document.opened
  if opened.contains path || document.isComplete path then throw (.declaredTwice path)
  let root ← document.root.ensure path
  return { document with root, header := path, opened := path :: opened, pending := [] }

/-- The document behind the header of a table in an array. Nothing is known of what is in a new
table. -/
def openElement (document : Document) (path : Key) : Except Cause Document := do
  if document.isComplete path then throw (.complete path)
  let opened := (document.pending ++ document.opened).filter (!path.isPrefixOf ·)
  let completed := document.completed.filter (!path.isPrefixOf ·)
  let root ← document.root.append path.dropLast (path.getLastD "")
  return { root, header := path, opened := path :: opened, pending := [], completed }

/-- The tables that a dotted key passes through. -/
def passed (path : Key) : List Key :=
  ((List.range path.length).drop 1).map path.take

/-- The document behind a key and its value. -/
def addEntry (document : Document) (path : Key) (value : Value) : Except Cause Document := do
  let through := (passed path).map (document.header ++ ·)
  let parent := document.header ++ path.dropLast
  if let some taken := through.find? document.opened.contains then throw (.redefined taken)
  if document.isComplete parent then throw (.complete parent)
  let root ← document.root.insert true .overwritten parent (path.getLastD "") value
  return { document with
    root
    pending := through ++ document.pending
    completed := if value.isComposed then (document.header ++ path) :: document.completed
      else document.completed }

end Document

/-! ## Statements -/

/-- The document behind a header with its brackets. -/
def header (document : Document) (brackets : String × String) (unclosed : Cause)
    (change : Document → Key → Except Cause Document) : Demand Document := do
  Demand.ofTrial .noStatement (Trial.word brackets.1)
  blanks
  let path ← key
  let document ← Demand.ofExcept (change document path)
  Demand.ofTrial unclosed (Trial.word brackets.2)
  return document

/-- The document behind an entry. -/
def addedEntry (room : Nat) (document : Document) : Demand Document := do
  let (path, value) ← entry room
  Demand.ofExcept (document.addEntry path value)

/-- Whether a key begins with a character. -/
def isKeyStart (char : Char) : Bool := isBareKeyChar char || char = '"' || char = '\''

/-- The document behind one more statement, which may be a comment alone. -/
def statement (room : Nat) (document : Document) : Demand Document
  | '[' :: '[' :: rest =>
      header document ("[[", "]]") .noTablesEnd Document.openElement ('[' :: '[' :: rest)
  | '[' :: rest => header document ("[", "]") .noTableEnd Document.openTable ('[' :: rest)
  | '#' :: rest => .ok ⟨document, '#' :: rest, List.suffix_refl _⟩
  | char :: rest =>
      if isKeyStart char then addedEntry room document (char :: rest)
      else malformed .noStatement (char :: rest)
  | [] => malformed .noStatement []

/-- The document behind one more statement, and past the blanks and the comment behind it. -/
def statementLine (room : Nat) (document : Document) : Demand Document := do
  let document ← statement room document
  blanks
  comment
  return document

/-- The table of a document when all statements that are left have been read. -/
def statements (room : Nat) (document : Document) (input : List Char) : Except Stop Table :=
  let front := skipWhile isBlank input
  match _opened : front.rest with
  | [] => .ok document.root
  | '\n' :: rest => statements room document rest
  | _ => do
      let said ← statementLine room document front.rest
      match _ended : said.rest with
      | [] => return said.value.root
      | '\n' :: rest => statements room said.value rest
      | rest => malformed .noStatementEnd rest
termination_by input.length
decreasing_by
  · exact front.length_lt_of_rest_eq _opened
  · exact Nat.lt_of_lt_of_le (said.length_lt_of_rest_eq _ended) front.rest_length_le

section

variable {room : Nat} {document : Document} {input : List Char}

theorem statements_of_end (ended : (skipWhile isBlank input).rest = []) :
    statements room document input = .ok document.root := by
  rw [statements]
  split
  · rfl
  · next other => exact nomatch ended.symm.trans other
  · next others _ => exact absurd ended others

theorem statements_of_feed {rest : List Char}
    (fed : (skipWhile isBlank input).rest = '\n' :: rest) :
    statements room document input = statements room document rest := by
  rw [statements]
  split
  · next ended => exact nomatch ended.symm.trans fed
  · next other =>
      obtain ⟨-, rfl⟩ := List.cons.inj (fed.symm.trans other)
      rfl
  · next others => exact absurd fed (others rest)

theorem statements_of_statement (notEnded : (skipWhile isBlank input).rest ≠ [])
    (notFed : ∀ rest, (skipWhile isBlank input).rest ≠ '\n' :: rest) :
    statements room document input = (do
      let said ← statementLine room document (skipWhile isBlank input).rest
      match _ended : said.rest with
      | [] => return said.value.root
      | '\n' :: rest => statements room said.value rest
      | rest => malformed .noStatementEnd rest) := by
  rw [statements]
  split
  · next ended => exact absurd ended notEnded
  · next rest fed => exact absurd fed (notFed rest)
  · rfl

end

/-- The characters of a file with each carriage return before a line feed left out. -/
def withoutReturns : List Char → List Char
  | '\r' :: '\n' :: rest => '\n' :: withoutReturns rest
  | char :: rest => char :: withoutReturns rest
  | [] => []

/-- What is wrong with a text in which reading stops. -/
def Stop.fault (text : List Char) : Stop → Fault
  | malformed cause left => .malformed cause (.ofLeft text left)
  | longInteger digits => .longInteger digits
  | tooDeep => .tooDeep

/-- The table of a settings file. -/
def parse (room : Nat) (text : String) : Except Fault Table :=
  let chars := withoutReturns text.toList
  (statements room {} chars).mapError (Stop.fault chars)

/-- The table of a settings file given as bytes. -/
def load (room : Nat) (bytes : List UInt8) : Except Fault Table :=
  match Text.decode? bytes with
  | none => .error .notText
  | some text => parse room text

end PrattSyntax.Toml
