import PrattSyntax.Echo
import PrattSyntax.Text.DecimalDigit

/-!
# Switches

A switch is written by its name. A long name may be cut short as long as it stays
unambiguous. The value of a switch follows as the next argument, or behind an
equals sign. The names of one letter may be written together, with or without an
equals sign behind the first. Behind a double dash there are no switches, and a
double dash behind an equals sign is no value.
-/

namespace PrattSyntax.CommandLine

/-- Why arguments name nothing to do. -/
inductive Stop where
  | help
  | misuse
deriving DecidableEq, Repr

/-- The exit code of arguments that name nothing to do. -/
def Stop.code : Stop → Nat
  | help => 0
  | misuse => 2

/-- The switches. -/
inductive Switch where
  | help
  | config
  | verbose
  | debug
  | mode
  | prompt
deriving DecidableEq, Repr

/-- Whether a switch has a value. -/
def Switch.takesValue : Switch → Bool
  | config | mode | prompt => true
  | help | verbose | debug => false

/-- The names of switches, in order. -/
abbrev Switches := List (String × Switch)

/-! ## What an argument looks like -/

/-- The text behind a name in the same argument: behind a long name and an equals
sign, or behind a name of one letter, whether or not a sign is between. -/
inductive Attached where
  | nothing
  | behindName (text : List Char)
  | behindLetter (text : List Char)
deriving DecidableEq, Repr

/-- What an argument looks like by itself. -/
inductive Shape where
  | operand
  | terminator
  | switch (found : Switch) (attached : Attached)
  | unknownSwitch
deriving DecidableEq, Repr

/-- The argument without one line feed at its end. -/
def withoutLineFeed (chars : List Char) : List Char :=
  if chars.getLast? = some '\n' then chars.dropLast else chars

/-- A minus sign with a decimal number behind it, and perhaps a line feed behind
that. -/
def isNegativeNumber (chars : List Char) : Bool :=
  match withoutLineFeed chars with
  | '-' :: digits =>
      match digits.dropWhile Text.isDecimalDigit with
      | [] => digits ≠ []
      | '.' :: fraction => fraction ≠ [] && fraction.all Text.isDecimalDigit
      | _ => false
  | _ => false

/-- A text up to its first equals sign, and the text behind the sign if there is
one. -/
def splitAtSign (chars : List Char) : List Char × Option (List Char) :=
  match chars.dropWhile (· ≠ '=') with
  | _ :: value => (chars.takeWhile (· ≠ '='), some value)
  | [] => (chars, none)

/-- What is attached to a name by an equals sign. -/
def attachedBySign (name : List Char) : Option (List Char) → Attached
  | none => .nothing
  | some text => if name.length = 2 then .behindLetter text else .behindName text

/-- Every reading of an argument as a long name cut short, or as a short name
with something right behind it. -/
def shortened (switches : Switches) : List Char → List Shape
  | '-' :: '-' :: rest =>
      let (start, value) := splitAtSign ('-' :: '-' :: rest)
      switches.filterMap fun (name, found) =>
        if start.isPrefixOf name.toList then
          some (.switch found (attachedBySign name.toList value))
        else none
  | dash :: letter :: behind =>
      switches.filterMap fun (name, found) =>
        if name.toList = [dash, letter] then some (.switch found (.behindLetter behind))
        else if (dash :: letter :: behind).isPrefixOf name.toList then
          some (.switch found .nothing)
        else none
  | _ => []

/-- The switch with exactly a given name. -/
def exactly? (switches : Switches) (name : List Char) (attached : Attached) : Option Shape :=
  (switches.lookup (String.ofList name)).map fun found => .switch found attached

/-- What a known name, a single dash, or a known name before an equals sign looks
like. -/
def plainly? (switches : Switches) (chars : List Char) : Option Shape :=
  (exactly? switches chars .nothing).or <|
    if chars.length = 1 then some .operand
    else
      match splitAtSign chars with
      | (_, none) => none
      | (name, some text) => exactly? switches name (attachedBySign name (some text))

/-- What an argument looks like where switches are read. One that could be cut
from several names is wrong; one that looks like a number or holds a blank is no
switch. -/
def shapeOf (switches : Switches) (chars : List Char) : Except Stop Shape :=
  if chars.head? ≠ some '-' then .ok .operand
  else
    match plainly? switches chars with
    | some shape => .ok shape
    | none =>
        match shortened switches chars with
        | [shape] => .ok shape
        | [] =>
            if isNegativeNumber chars || chars.contains ' ' then .ok .operand
            else .ok .unknownSwitch
        | _ => .error .misuse

/-! ## What a switch takes -/

/-- A switch and its value, if it has one. -/
structure Setting where
  switch : Switch
  value : Option String := none
deriving DecidableEq, Repr

/-- What one argument sets, and whether the next argument is gone with it. -/
structure Taken where
  settings : List Setting
  usesNext : Bool := false
deriving DecidableEq, Repr

/-- A switch with nothing behind it in its argument; `next` is the argument that
follows, if that is an operand. -/
def takeAlone (next : Option String) (found : Switch) : Except Stop Taken :=
  if found.takesValue then
    match next with
    | some value => .ok { settings := [⟨found, some value⟩], usesNext := true }
    | none => .error .misuse
  else .ok { settings := [{ switch := found }] }

/-- A switch with a text attached to it, which has to be its value. -/
def takeAttached (found : Switch) (text : List Char) : Except Stop Taken :=
  if found.takesValue then
    let value := String.ofList text
    .ok { settings := [⟨found, if value = "--" then none else some value⟩] }
  else .error .misuse

/-- A switch with letters behind its own. They are its value if it has one, and
the letters of further switches otherwise. -/
def takeTogether (switches : Switches) (next : Option String) (found : Switch) :
    List Char → Except Stop Taken
  | [] => takeAlone next found
  | letter :: behind =>
      if found.takesValue then takeAttached found (letter :: behind)
      else
        match switches.lookup (String.ofList ['-', letter]) with
        | none => .error .misuse
        | some inner => do
            let taken ← takeTogether switches next inner behind
            return { taken with settings := { switch := found } :: taken.settings }

/-- What the switch of an argument takes. -/
def takeSwitch (switches : Switches) (next : Option String) (found : Switch) :
    Attached → Except Stop Taken
  | .nothing => takeAlone next found
  | .behindName text => takeAttached found text
  | .behindLetter [] => takeAttached found []
  | .behindLetter letters => takeTogether switches next found letters

/-- A switch takes effect: help ends everything, and the value of a mode has to be
the name of one. -/
def accept (setting : Setting) : Except Stop Unit :=
  match setting.switch, setting.value with
  | .help, _ => .error .help
  | .mode, some name => if (Echo.Mode.ofName? name).isSome then .ok () else .error .misuse
  | _, _ => .ok ()

end PrattSyntax.CommandLine
