import PrattSyntax.CommandLine.Run
import PrattSyntax.Proofs.CommandLine.Settings
import PrattSyntax.Proofs.Text.Lines

/-!
# How runs end

A run goes through stages: settings are looked up and read, options are made out, the input is
read, and only then the command does its work. What can go wrong is a matter of the files and
the arguments alone, and it decides how the run ends: with exit code two where a stage fails,
with one where a program is at fault, with nought otherwise, or, for some failures of a stage,
with no exit code at all.
-/

namespace PrattSyntax

namespace CommandLine

variable {room : Toml.Room} {files : Files} {arguments : Arguments}

/-! ## The ways a run ends -/

/-- Whether a command reads the program in its file. -/
def Command.readsProgram : Command → Bool
  | parse _ _ | check _ => true
  | tokens _ | echo _ _ => false

/-- Why a run breaks off: for settings that are no text, hold too long a number or have no room,
or for a mode in them that cannot be shown, and, once options are made out, for a file without a
name or with one that holds a NUL, and for a mode or prompt that is named without a value. -/
inductive BreaksOff (room : Toml.Room) (files : Files) (arguments : Arguments) :
    Breakdown → Prop
  | settingsNoText {bytes : List UInt8} (found : files arguments.settingsPath = .ok bytes)
      (undecodable : Text.decode? bytes = none) : BreaksOff room files arguments .settingsNoText
  | longInteger {bytes : List UInt8} {digits : Nat}
      (found : files arguments.settingsPath = .ok bytes)
      (loaded : Toml.load room.reading bytes = .error (.longInteger digits)) :
      BreaksOff room files arguments (.longInteger digits)
  | settingsTooDeep {bytes : List UInt8} (found : files arguments.settingsPath = .ok bytes)
      (loaded : Toml.load room.reading bytes = .error .tooDeep) :
      BreaksOff room files arguments .settingsTooDeep
  | unshownMode {reason : Toml.Unshown}
      (fails : OptionsFail room files arguments (.unshownMode reason)) :
      BreaksOff room files arguments (.unshownMode reason)
  | noInput (starts : ∀ fault, ¬ OptionsFail room files arguments fault)
      (file : arguments.command.file? = some "") : BreaksOff room files arguments .noInput
  | noPath {name : String} (starts : ∀ fault, ¬ OptionsFail room files arguments fault)
      (file : arguments.command.file? = some name) (ends : '\x00' ∈ name.toList) :
      BreaksOff room files arguments .noPath
  | noMode (starts : ∀ fault, ¬ OptionsFail room files arguments fault)
      (bare : arguments.command.mode = .bare) : BreaksOff room files arguments .noMode
  | noPrompt (starts : ∀ fault, ¬ OptionsFail room files arguments fault)
      (moded : arguments.command.mode ≠ .bare) (bare : arguments.command.prompt = .bare) :
      BreaksOff room files arguments .noPrompt

/-- Whether options cannot be made out or the input cannot be read. -/
inductive Fails (room : Toml.Room) (files : Files) (arguments : Arguments) : Prop
  | options {fault : OptionFault} (fails : OptionsFail room files arguments fault)
  | input {name : String} {fault : ReadFault} (file : arguments.command.file? = some name)
      (found : files (.ofString name) = .error fault)

/-- Whether something is held against the program in the file of a command. -/
structure AtFault (files : Files) (command : Command) : Prop where
  reads : command.readsProgram
  faulty : ∃ name bytes, command.file? = some name ∧ files (.ofString name) = .ok bytes ∧
    (PrattSyntax.parse bytes).faults ≠ []

/-- How a run ends, by its files and arguments. -/
inductive Ends (room : Toml.Room) (files : Files) (arguments : Arguments) :
    Except Breakdown Nat → Prop
  | broken {breakdown : Breakdown} (breaksOff : BreaksOff room files arguments breakdown) :
      Ends room files arguments (.error breakdown)
  | refused (answers : ∀ breakdown, ¬ BreaksOff room files arguments breakdown)
      (fails : Fails room files arguments) : Ends room files arguments (.ok 2)
  | atFault (answers : ∀ breakdown, ¬ BreaksOff room files arguments breakdown)
      (works : ¬ Fails room files arguments) (atFault : AtFault files arguments.command) :
      Ends room files arguments (.ok 1)
  | done (answers : ∀ breakdown, ¬ BreaksOff room files arguments breakdown)
      (works : ¬ Fails room files arguments) (faultless : ¬ AtFault files arguments.command) :
      Ends room files arguments (.ok 0)

theorem exists_ends (room : Toml.Room) (files : Files) (arguments : Arguments) :
    ∃ outcome, Ends room files arguments outcome := by
  by_cases breaksOff : ∃ breakdown, BreaksOff room files arguments breakdown
  · obtain ⟨breakdown, breaksOff⟩ := breaksOff
    exact ⟨_, .broken breaksOff⟩
  · have answers := not_exists.mp breaksOff
    by_cases fails : Fails room files arguments
    · exact ⟨_, .refused answers fails⟩
    · by_cases atFault : AtFault files arguments.command
      · exact ⟨_, .atFault answers fails atFault⟩
      · exact ⟨_, .done answers fails atFault⟩

/-! ## Stages -/

end CommandLine

end PrattSyntax
