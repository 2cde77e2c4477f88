import PrattSyntax.CommandLine.Options

/-!
# Settings and options

Options are made out of the arguments and of a settings file. What can go wrong is that there
is something in the place of this file which the system does not hand out, that its bytes are no
text, that its text is malformed, holds too long a number or has no room, and that the mode in it
is none.
-/

namespace PrattSyntax

/-! ## Settings that are text -/

namespace Toml

end Toml

namespace CommandLine

/-! ## Options -/

/-- Whether a value in the settings is the name of a mode. -/
def NamesMode (value : Toml.Value) : Prop :=
  ∃ name mode, value = .text name ∧ Echo.Mode.ofName? name = some mode

/-- Why options cannot be made out: there is something at the path of the settings that cannot
be read, what is read is no settings file, or the mode in it is none. -/
inductive OptionsFail (room : Toml.Room) (files : Files) (arguments : Arguments) :
    OptionFault → Prop
  | unreadable {fault : ReadFault} (found : files arguments.settingsPath = .error fault)
      (present : ¬ fault.meansNoFile) :
      OptionsFail room files arguments (.settings (.unreadable fault))
  | unusable {bytes : List UInt8} {fault : Toml.Fault}
      (found : files arguments.settingsPath = .ok bytes)
      (loaded : Toml.load room.reading bytes = .error fault) :
      OptionsFail room files arguments (.settings (.unusable fault))
  | mode {bytes : List UInt8} {settings : Toml.Table} {value : Toml.Value}
      (found : files arguments.settingsPath = .ok bytes)
      (loaded : Toml.load room.reading bytes = .ok settings)
      (set : (echoSettings settings).find? "mode" = some value) (unknown : ¬ NamesMode value) :
      OptionsFail room files arguments (.ofMode room value)

variable {room : Toml.Room} {files : Files} {arguments : Arguments}

theorem settingsMode?_eq_error_iff {table : Toml.Table} {fault : OptionFault} :
    settingsMode? room table = .error fault ↔
      ∃ value, table.find? "mode" = some value ∧ ¬ NamesMode value ∧
        fault = .ofMode room value := by
  rw [settingsMode?]
  cases table.find? "mode" with
  | none => simp
  | some value =>
      cases value with
      | text name =>
          cases modeEq : Echo.Mode.ofName? name with
          | none => simp [NamesMode, modeEq, eq_comm]
          | some mode => simp [NamesMode, modeEq]
      | _ => simp [NamesMode, eq_comm]

theorem ofSettings_eq (room : Toml.Room) (command : Command) (settings : Toml.Table) :
    Options.ofSettings room command settings =
      (settingsMode? room (echoSettings settings)).map fun mode =>
        { command
          input := command.file?.bind namedPath
          prompt := command.prompt.resolve
            ((settingsPrompt? (echoSettings settings)).getD Echo.defaultPrompt)
          mode := command.mode.resolve (mode.getD .tokens) } := by
  rw [Options.ofSettings]
  cases settingsMode? room (echoSettings settings) <;> rfl

theorem loadSettings_of_file (room : Toml.Room) {path : Path} {bytes : List UInt8}
    (found : files path = .ok bytes) :
    loadSettings room files path = (Toml.load room.reading bytes).mapError .unusable := by
  rw [loadSettings, found]

theorem loadSettings_of_fault (room : Toml.Room) {path : Path} {fault : ReadFault}
    (found : files path = .error fault) :
    loadSettings room files path =
      if fault.meansNoFile then .ok [] else .error (.unreadable fault) := by
  rw [loadSettings, found]

theorem options_of_settings {settings : Toml.Table}
    (loaded : loadSettings room files arguments.settingsPath = .ok settings) :
    arguments.options room files = Options.ofSettings room arguments.command settings := by
  rw [Arguments.options, loaded]

theorem options_of_settingsFault {fault : SettingsFault}
    (loaded : loadSettings room files arguments.settingsPath = .error fault) :
    arguments.options room files = .error (.settings fault) := by
  rw [Arguments.options, loaded]
  rfl

/-- Options cannot be made out exactly if one of these things is wrong, and there is one answer
for each. -/
theorem options_eq_error_iff {fault : OptionFault} :
    arguments.options room files = .error fault ↔ OptionsFail room files arguments fault := by
  constructor
  · intro failed
    cases found : files arguments.settingsPath with
    | error readFault =>
        have loaded := loadSettings_of_fault room found
        split at loaded
        · rw [options_of_settings loaded, ofSettings_eq] at failed
          contradiction
        · next present =>
            rw [options_of_settingsFault loaded] at failed
            obtain rfl := Except.error.inj failed
            exact .unreadable found present
    | ok bytes =>
        have loaded := loadSettings_of_file room found
        cases readEq : Toml.load room.reading bytes with
        | error unusable =>
            rw [readEq] at loaded
            rw [options_of_settingsFault loaded] at failed
            obtain rfl := Except.error.inj failed
            exact .unusable found readEq
        | ok settings =>
            rw [readEq] at loaded
            rw [options_of_settings loaded, ofSettings_eq] at failed
            cases modeEq : settingsMode? room (echoSettings settings) with
            | error modeFault =>
                rw [modeEq] at failed
                obtain rfl := Except.error.inj failed
                obtain ⟨value, set, unknown, rfl⟩ := settingsMode?_eq_error_iff.mp modeEq
                exact .mode found readEq set unknown
            | ok mode =>
                rw [modeEq] at failed
                contradiction
  · intro fails
    cases fails with
    | unreadable found present =>
        apply options_of_settingsFault
        rw [loadSettings_of_fault room found, if_neg present]
    | unusable found loaded =>
        apply options_of_settingsFault
        rw [loadSettings_of_file room found, loaded]
        rfl
    | mode found loaded set unknown =>
        have settingsEq := loadSettings_of_file room found
        rw [loaded] at settingsEq
        rw [options_of_settings settingsEq, ofSettings_eq,
          settingsMode?_eq_error_iff.mpr ⟨_, set, unknown, rfl⟩]
        rfl

end CommandLine

end PrattSyntax
