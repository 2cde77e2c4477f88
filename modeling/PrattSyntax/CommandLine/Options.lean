import PrattSyntax.CommandLine.Arguments
import PrattSyntax.FileTree
import PrattSyntax.Toml.Document

/-!
# Options

The options of a run come from the arguments and from a settings file. The file
is the one that the arguments name, or the one with the usual name in the working
directory; where there is no file there are no settings. What the arguments say
goes before what the file says, but a mode in the file has to be one all the same.
-/

namespace PrattSyntax.CommandLine

/-- The usual name of a settings file. -/
def settingsName : String := "monkey.toml"

/-- The path of the settings file that is named, or of the usual one in a
directory. -/
def settingsPath (named : Option Path) (directory : Path) : Path :=
  named.getD (directory.child settingsName)

/-- The path that a text names; an empty text names none. -/
def namedPath (text : String) : Option Path :=
  if text = "" then none else some (Path.ofString text)

/-- Whether there are settings to read. -/
def hasSettings (files : Files) (path : Path) : Bool := (files path).isOk

/-- Why settings cannot be read. -/
inductive SettingsFault where
  /-- There is something at the path that the system does not hand out. -/
  | unreadable (fault : ReadFault)
  /-- The file is no settings file. -/
  | unusable (fault : Toml.Fault)
deriving DecidableEq, Repr

/-- The settings at a path; there are none where there is no file. -/
def loadSettings (room : Toml.Room) (files : Files) (path : Path) :
    Except SettingsFault Toml.Table :=
  match files path with
  | .error fault => if fault.meansNoFile then .ok [] else .error (.unreadable fault)
  | .ok bytes => (Toml.load room.reading bytes).mapError .unusable

/-- Why options cannot be made out. -/
inductive OptionFault where
  | settings (fault : SettingsFault)
  | unknownMode (shown : String)
  /-- The mode in the settings is none and cannot even be shown. -/
  | unshownMode (reason : Toml.Unshown)
deriving DecidableEq, Repr

/-- The fault of a mode in the settings that there is none of. -/
def OptionFault.ofMode (room : Toml.Room) (value : Toml.Value) : OptionFault :=
  match value.shown room.showing with
  | .ok shown => .unknownMode shown
  | .error reason => .unshownMode reason

/-- The wording for a mode in the settings that there is none of. -/
def unknownModeMessage (shown : String) : String :=
  "invalid repl mode in config (expected one of "
    ++ ", ".intercalate (Echo.Mode.named.map Prod.fst) ++ "): " ++ shown

/-- The options of a run. There is no prompt or no mode where the arguments name it
without a value. -/
structure Options where
  command : Command
  input : Option Path
  prompt : Option String
  mode : Option Echo.Mode
deriving DecidableEq, Repr

/-- The table of settings about the echo loop. -/
def echoSettings (settings : Toml.Table) : Toml.Table :=
  match settings.find? "repl" with
  | some (.table table) => table
  | _ => []

/-- The prompt in the settings, if there is a text under that key. -/
def settingsPrompt? (table : Toml.Table) : Option String :=
  match table.find? "prompt" with
  | some (.text prompt) => some prompt
  | _ => none

/-- The mode in the settings, if there is one. -/
def settingsMode? (room : Toml.Room) (table : Toml.Table) :
    Except OptionFault (Option Echo.Mode) :=
  match table.find? "mode" with
  | none => .ok none
  | some (.text name) =>
      match Echo.Mode.ofName? name with
      | some mode => .ok (some mode)
      | none => .error (.ofMode room (.text name))
  | some value => .error (.ofMode room value)

/-- The file of a command. -/
def Command.file? : Command → Option String
  | tokens file => some file
  | parse file _ => some file
  | check file => some file
  | echo _ _ => none

/-- What a command says about the mode. -/
def Command.mode : Command → Mention Echo.Mode
  | echo mode _ => mode
  | _ => .absent

/-- What a command says about the prompt. -/
def Command.prompt : Command → Mention String
  | echo _ prompt => prompt
  | _ => .absent

/-- Whether a command asks for an outline of the program. -/
def Command.debug : Command → Bool
  | parse _ debug => debug
  | _ => false

/-- The options of a command under given settings. -/
def Options.ofSettings (room : Toml.Room) (command : Command) (settings : Toml.Table) :
    Except OptionFault Options := do
  let table := echoSettings settings
  let mode ← settingsMode? room table
  return {
    command
    input := command.file?.bind namedPath
    prompt := command.prompt.resolve ((settingsPrompt? table).getD Echo.defaultPrompt)
    mode := command.mode.resolve (mode.getD .tokens) }

/-- The path of the settings that arguments ask for. -/
def Arguments.settingsPath (arguments : Arguments) : Path :=
  CommandLine.settingsPath (arguments.config.value?.bind namedPath) (Path.ofString ".")

/-- The options that arguments ask for. -/
def Arguments.options (room : Toml.Room) (files : Files) (arguments : Arguments) :
    Except OptionFault Options := do
  match loadSettings room files arguments.settingsPath with
  | .error fault => throw (.settings fault)
  | .ok settings => Options.ofSettings room arguments.command settings

end PrattSyntax.CommandLine
