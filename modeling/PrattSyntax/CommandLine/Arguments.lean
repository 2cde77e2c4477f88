import PrattSyntax.CommandLine.Switch

/-!
# Arguments

The arguments are switches, the name of a command, and the switches and the
operand of that command, in any order where they stand beside one another. They
are taken from left to right, and the first that ends the matter ends it: a
request for help, or a misuse. What is left over or missing is a misuse as well,
found when all else has been taken.
-/

namespace PrattSyntax.CommandLine

/-- An argument with its shape. -/
structure Item where
  text : String
  shape : Shape
deriving DecidableEq, Repr

/-- The text of an argument that is an operand. -/
def Item.operand? (item : Item) : Option String :=
  if item.shape = .operand then some item.text else none

/-- Every argument with its shape. -/
def items (switches : Switches) : List String → Except Stop (List Item)
  | [] => .ok []
  | argument :: rest =>
      if argument = "--" then
        .ok (⟨argument, .terminator⟩ :: rest.map fun operand => ⟨operand, .operand⟩)
      else do
        let shape ← shapeOf switches argument.toList
        return ⟨argument, shape⟩ :: (← items switches rest)

/-- How many operands are wanted: none, one, or all there is from the first on. -/
inductive Wanted where
  | none
  | one
  | rest
deriving DecidableEq, Repr

/-- What has been taken of the arguments. -/
structure Collected where
  settings : List Setting := []
  operands : List String := []
  leftover : Bool := false
deriving DecidableEq, Repr

/-- What is said about a switch with a value: nothing, its name without a value, or
its value. -/
inductive Mention (α : Type) where
  | absent
  | bare
  | value (value : α)
deriving DecidableEq, Repr

namespace Mention

variable {α β : Type}

/-- The value, if one is given. -/
def value? : Mention α → Option α
  | value given => some given
  | _ => none

/-- The value given, or the usual one where nothing is said; there is none where the
name stands without a value. -/
def resolve (usual : α) : Mention α → Option α
  | absent => some usual
  | bare => none
  | value given => some given

/-- The value read as something else; what cannot be read is as good as not said. -/
def filterMap (read : α → Option β) : Mention α → Mention β
  | absent => absent
  | bare => bare
  | value given => match read given with
    | some result => value result
    | none => absent

end Mention

/-- What is said about a switch. The last time that it is given counts. -/
def Collected.mention (collected : Collected) (switch : Switch) : Mention String :=
  match (collected.settings.reverse.find? (·.switch = switch)).map Setting.value with
  | none => .absent
  | some none => .bare
  | some (some value) => .value value

/-- Whether a switch was given. -/
def Collected.has (collected : Collected) (switch : Switch) : Bool :=
  collected.settings.any (·.switch = switch)

/-- The arguments without a double dash in front. -/
def dropTerminator : List Item → List Item
  | item :: rest => if item.shape = .terminator then rest else item :: rest
  | [] => []

theorem dropTerminator_length_le (arguments : List Item) :
    (dropTerminator arguments).length ≤ arguments.length := by
  fun_cases dropTerminator arguments <;> simp

/-- Takes the arguments in turn. A double dash beside the one operand wanted goes
with it. -/
def collect (switches : Switches) (wanted : Wanted) (collected : Collected) :
    List Item → Except Stop Collected
  | [] => .ok collected
  | item :: rest =>
      match item.shape with
      | .switch found attached => do
          let taken ← takeSwitch switches (rest.head?.bind Item.operand?) found attached
          taken.settings.forM accept
          collect switches wanted
            { collected with settings := collected.settings ++ taken.settings }
            (rest.drop (if taken.usesNext then 1 else 0))
      | .unknownSwitch => collect switches wanted { collected with leftover := true } rest
      | .operand =>
          match wanted, collected.operands with
          | .rest, [] =>
              .ok { collected with operands := item.text :: rest.map Item.text }
          | .one, [] =>
              collect switches wanted { collected with operands := [item.text] }
                (dropTerminator rest)
          | _, _ => collect switches wanted { collected with leftover := true } rest
      | .terminator =>
          match wanted, collected.operands, rest.head? with
          | .rest, [], some _ =>
              .ok { collected with operands := item.text :: rest.map Item.text }
          | .one, [], some operand =>
              collect switches wanted { collected with operands := [operand.text] } rest.tail
          | _, _, _ => collect switches wanted { collected with leftover := true } rest
termination_by arguments => arguments.length
decreasing_by
  all_goals
    have shorter := dropTerminator_length_le rest
    simp only [List.length_drop, List.length_tail, List.length_cons]
    omega

/-- What arguments give under given switches. -/
def readArguments (switches : Switches) (wanted : Wanted) (arguments : List String) :
    Except Stop Collected := do
  collect switches wanted {} (← items switches arguments)

/-! ## Commands -/

/-- What is to be done. -/
inductive Command where
  | tokens (file : String)
  | parse (file : String) (debug : Bool)
  | check (file : String)
  | echo (mode : Mention Echo.Mode) (prompt : Mention String)
deriving DecidableEq, Repr

/-- The name of a command. -/
def Command.name : Command → String
  | tokens _ => "tokens"
  | parse _ _ => "parse"
  | check _ => "check"
  | echo _ _ => "repl"

/-- The arguments: what is to be done, where the settings are, and whether to say
more on the way. -/
structure Arguments where
  config : Mention String
  verbose : Bool
  command : Command
deriving DecidableEq, Repr

/-- The switches before a command. -/
def commonSwitches : Switches :=
  [("-h", .help), ("--help", .help), ("--config", .config), ("-v", .verbose),
    ("--verbose", .verbose)]

/-- The switches of a command that reads a file. -/
def fileSwitches : Switches := [("-h", .help), ("--help", .help)]

/-- The switches of the command that prints a program. -/
def parseSwitches : Switches := fileSwitches ++ [("--debug", .debug)]

/-- The switches of the echo loop. -/
def echoSwitches : Switches := fileSwitches ++ [("--mode", .mode), ("--prompt", .prompt)]

/-- A command made of its one operand. -/
def ofFile (build : String → Collected → Command) (collected : Collected) :
    Except Stop (Command × Bool) :=
  match collected.operands with
  | file :: _ => .ok (build file collected, collected.leftover)
  | [] => .error .misuse

/-- The command of a given name with its arguments, and whether something is left
over. -/
def readCommand (name : String) (arguments : List String) : Except Stop (Command × Bool) :=
  match name with
  | "tokens" => do
      ofFile (fun file _ => .tokens file) (← readArguments fileSwitches .one arguments)
  | "parse" => do
      ofFile (fun file collected => .parse file (collected.has .debug))
        (← readArguments parseSwitches .one arguments)
  | "check" => do
      ofFile (fun file _ => .check file) (← readArguments fileSwitches .one arguments)
  | "repl" => do
      let collected ← readArguments echoSwitches .none arguments
      return (.echo ((collected.mention .mode).filterMap Echo.Mode.ofName?)
        (collected.mention .prompt), collected.leftover)
  | _ => .error .misuse

/-- The arguments of a command line. -/
def Arguments.ofList (arguments : List String) : Except Stop Arguments := do
  let collected ← readArguments commonSwitches .rest arguments
  match collected.operands with
  | [] => throw .misuse
  | name :: rest =>
      let (command, leftover) ← readCommand name rest
      if collected.leftover || leftover then throw .misuse
      return ⟨collected.mention .config, collected.has .verbose, command⟩

end PrattSyntax.CommandLine
