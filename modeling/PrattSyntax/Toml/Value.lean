import PrattSyntax.Token.Integer
import PrattSyntax.Toml.Double
import PrattSyntax.Toml.Fault
import PrattSyntax.Toml.Moment

/-!
# Values of a settings file

A settings file holds texts, numbers, truth values, dates and times, arrays and tables. A
table is its keys in order, each with one value; `Table.change` follows a path of keys into
nested tables and makes the tables that are missing.
-/

namespace PrattSyntax.Toml

/-- A value of a settings file. -/
inductive Value where
  | text (text : String)
  | integer (value : Int)
  | float (value : Double)
  | boolean (value : Bool)
  | moment (time : Moment)
  | array (elements : List Value)
  | table (entries : List (String × Value))

/-- A table: its keys, each with its value. -/
abbrev Table := List (String × Value)

namespace Table

/-- The value of a key. -/
def find? (table : Table) (key : String) : Option Value := table.lookup key

/-- The table with one entry more behind the others. -/
def add (table : Table) (key : String) (value : Value) : Table := table ++ [(key, value)]

/-- The table with another value for a key that it has. -/
def replace (table : Table) (key : String) (value : Value) : Table :=
  table.map fun entry => if entry.1 = key then (key, value) else entry

/-- The table with the table at a path changed. A table that is missing on the way is made.
The last table of an array stands for the array, if arrays are entered. Any other value in
the way stops it. -/
def change (entersArrays : Bool) (change? : Table → Except Cause Table) :
    Key → Table → Except Cause Table
  | [], table => change? table
  | key :: path, table =>
      match table.find? key with
      | none => do
          let inner ← change entersArrays change? path []
          return table.add key (.table inner)
      | some (.table inner) => do
          let changed ← change entersArrays change? path inner
          return table.replace key (.table changed)
      | some (.array elements) =>
          match entersArrays, elements.getLast? with
          | true, some (.table inner) => do
              let changed ← change entersArrays change? path inner
              return table.replace key (.array (elements.dropLast ++ [.table changed]))
          | _, _ => throw .overwritten
      | some _ => throw .overwritten

/-- The table with a table at a path. -/
def ensure (path : Key) : Table → Except Cause Table := change true .ok path

/-- The table with a value under a new key in the table at a path. -/
def insert (entersArrays : Bool) (taken : Cause) (path : Key) (key : String) (value : Value) :
    Table → Except Cause Table :=
  change entersArrays
    (fun table => if (table.find? key).isSome then .error taken else .ok (table.add key value)) path

/-- The table with a table more at the end of an array in the table at a path. -/
def append (path : Key) (key : String) : Table → Except Cause Table :=
  change true
    (fun table =>
      match table.find? key with
      | none => .ok (table.add key (.array [.table []]))
      | some (.array elements) => .ok (table.replace key (.array (elements ++ [.table []])))
      | some _ => .error .overwritten) path

end Table

/-- How many calls can be open at a time for the values of a settings file: for the arrays and
tables in one another while they are read, besides what a value alone takes; and for all values
in one another while they are shown. -/
structure Room where
  reading : Nat
  showing : Nat
deriving DecidableEq, Repr

/-- What is left of a thousand calls where nothing else takes any. -/
def Room.standard : Room := ⟨989, 996⟩

/-- Why a value cannot be shown. -/
inductive Unshown where
  /-- An integer in it has more digits than are written. -/
  | longInteger
  /-- There is no room for the values in one another. -/
  | tooDeep
deriving DecidableEq, Repr

namespace Value

/-- Whether a value is an array or a table. -/
def isComposed : Value → Bool
  | array _ | table _ => true
  | _ => false

/-- An integer in digits. -/
def shownInteger (value : Int) : Except Unshown String :=
  if value.natAbs < Nat.pow 10 IntegerLiteral.maxDigits then .ok (toString value)
  else .error .longInteger

/-- The calls that showing a value takes, besides those for the values in it. -/
def calls : Value → Nat
  | moment time => time.calls
  | _ => 1

mutual

/-- A value inside another one, where a text is quoted. -/
def shownInside (room : Nat) (value : Value) : Except Unshown String :=
  if room < value.calls then .error .tooDeep
  else
    match value with
    | text content => .ok (Text.quote content)
    | integer value => shownInteger value
    | float value => .ok value.shown
    | boolean value => .ok (if value then "True" else "False")
    | moment time => .ok time.built
    | array elements => do
        let shown ← shownElements (room - 1) elements
        return "[" ++ ", ".intercalate shown ++ "]"
    | table entries => do
        let shown ← shownEntries (room - 1) entries
        return "\x7b" ++ ", ".intercalate shown ++ "\x7d"

/-- The elements of an array. -/
def shownElements (room : Nat) : List Value → Except Unshown (List String)
  | [] => .ok []
  | value :: rest => do
      let shown ← shownInside room value
      return shown :: (← shownElements room rest)

/-- The entries of a table, each as its key and its value. -/
def shownEntries (room : Nat) : List (String × Value) → Except Unshown (List String)
  | [] => .ok []
  | (key, value) :: rest => do
      let shown ← shownInside room value
      return (Text.quote key ++ ": " ++ shown) :: (← shownEntries room rest)

end

/-- A value by itself, where a text is shown as it is and a date or time in digits. -/
def shown (room : Nat) : Value → Except Unshown String
  | text content => .ok content
  | moment time => .ok time.shown
  | other => other.shownInside room

end Value

end PrattSyntax.Toml
