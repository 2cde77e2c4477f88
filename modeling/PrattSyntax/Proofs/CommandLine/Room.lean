import PrattSyntax.CommandLine.Run
import PrattSyntax.Proofs.CommandLine.Settings
import PrattSyntax.Proofs.Toml.EnoughRoom
import PrattSyntax.Proofs.Toml.MoreRoom

/-!
# Room for settings

How much room there is for the values in the settings matters to a run only in that the run may
break off for want of it. Every run has a room that is enough, and more makes no difference.
-/

namespace PrattSyntax.CommandLine

/-- Whether options cannot be made out for want of room. -/
inductive OptionFault.WantsRoom : OptionFault → Prop
  | settings : WantsRoom (.settings (.unusable .tooDeep))
  | mode : WantsRoom (.unshownMode .tooDeep)

/-- Whether a run breaks off for want of room. -/
inductive Breakdown.WantsRoom : Breakdown → Prop
  | settings : WantsRoom .settingsTooDeep
  | mode : WantsRoom (.unshownMode .tooDeep)

variable {room more : Toml.Room} {files : Files} {arguments : Arguments}

/-! ## More room -/

theorem loadSettings_refines (readingLe : room.reading ≤ more.reading) (path : Path) :
    Toml.Refines (.unusable .tooDeep) (loadSettings room files path)
      (loadSettings more files path) := by
  rw [loadSettings, loadSettings]
  cases files path with
  | error fault => exact .refl _
  | ok bytes =>
      rcases Toml.load_refines readingLe bytes with tight | same
      · left
        dsimp only
        rw [tight]
        rfl
      · right
        dsimp only
        rw [same]

theorem ofMode_refines (showingLe : room.showing ≤ more.showing) (value : Toml.Value) :
    OptionFault.ofMode room value = .unshownMode .tooDeep ∨
      OptionFault.ofMode more value = OptionFault.ofMode room value := by
  rw [OptionFault.ofMode, OptionFault.ofMode]
  rcases value.shown_refines showingLe with tight | same
  · left
    rw [tight]
  · right
    rw [same]

theorem settingsMode?_refines (showingLe : room.showing ≤ more.showing) (table : Toml.Table) :
    Toml.Refines (.unshownMode .tooDeep) (settingsMode? room table) (settingsMode? more table) := by
  have unknown (value : Toml.Value) :
      Toml.Refines (.unshownMode .tooDeep)
        (.error (.ofMode room value) : Except OptionFault (Option Echo.Mode))
        (.error (.ofMode more value)) :=
    (ofMode_refines showingLe value).imp (congrArg _) (congrArg _)
  rw [settingsMode?, settingsMode?]
  cases table.find? "mode" with
  | none => exact .refl _
  | some value =>
      cases value with
      | text name =>
          dsimp only
          split
          · exact .refl _
          · exact unknown _
      | _ => exact unknown _

theorem ofSettings_refines (showingLe : room.showing ≤ more.showing) (command : Command)
    (settings : Toml.Table) :
    Toml.Refines (.unshownMode .tooDeep) (Options.ofSettings room command settings)
      (Options.ofSettings more command settings) :=
  (settingsMode?_refines showingLe (echoSettings settings)).andThen

/-- More room makes a difference only where there is too little. -/
theorem options_of_more_room (readingLe : room.reading ≤ more.reading)
    (showingLe : room.showing ≤ more.showing)
    (roomy : ∀ fault, arguments.options room files = .error fault → ¬ fault.WantsRoom) :
    arguments.options more files = arguments.options room files := by
  rcases loadSettings_refines readingLe arguments.settingsPath with tight | same
  · exact absurd .settings (roomy _ (options_of_settingsFault tight))
  · cases loaded : loadSettings room files arguments.settingsPath with
    | error fault =>
        rw [options_of_settingsFault loaded, options_of_settingsFault (same.trans loaded)]
    | ok settings =>
        have optionsEq := options_of_settings loaded
        rw [options_of_settings (same.trans loaded), optionsEq]
        apply (ofSettings_refines showingLe arguments.command settings).eq_of_ne
        intro tight
        exact roomy _ (optionsEq.trans tight) .mode

/-! ## Enough room -/

theorem shown_of_ofMode_wantsRoom {value : Toml.Value}
    (wants : (OptionFault.ofMode room value).WantsRoom) :
    value.shown room.showing = .error .tooDeep := by
  rw [OptionFault.ofMode] at wants
  split at wants
  · cases wants
  · next shown =>
      cases wants
      exact shown

/-- There is a room that is enough to make options out. -/
theorem exists_room_for_options (files : Files) (arguments : Arguments) :
    ∃ room, ∀ fault, OptionsFail room files arguments fault → ¬ fault.WantsRoom := by
  cases found : files arguments.settingsPath with
  | error readFault =>
      refine ⟨⟨0, 0⟩, fun fault fails wants => ?_⟩
      cases fails with
      | unreadable => cases wants
      | unusable file => exact nomatch found.symm.trans file
      | mode file => exact nomatch found.symm.trans file
  | ok bytes =>
      obtain ⟨reading, readable⟩ := Toml.exists_room_for_load bytes
      have showable : ∃ showing, ∀ settings value, Toml.load reading bytes = .ok settings →
          (echoSettings settings).find? "mode" = some value → value.callsInside ≤ showing := by
        cases loaded : Toml.load reading bytes with
        | error fault => exact ⟨0, nofun⟩
        | ok settings =>
            cases set : (echoSettings settings).find? "mode" with
            | none =>
                refine ⟨0, ?_⟩
                rintro _ value ⟨⟩ other
                exact nomatch set.symm.trans other
            | some value =>
                refine ⟨value.callsInside, ?_⟩
                rintro _ other ⟨⟩ otherSet
                obtain rfl := Option.some.inj (set.symm.trans otherSet)
                exact Nat.le_refl _
      obtain ⟨showing, showable⟩ := showable
      refine ⟨⟨reading, showing⟩, fun fault fails wants => ?_⟩
      cases fails with
      | unreadable => cases wants
      | unusable file loaded =>
          obtain rfl := Except.ok.inj (found.symm.trans file)
          cases wants
          exact readable loaded
      | mode file loaded set unknown =>
          obtain rfl := Except.ok.inj (found.symm.trans file)
          exact Toml.Value.shown_avoids (showable _ _ loaded set) (shown_of_ofMode_wantsRoom wants)

/-! ## Runs -/

theorem runWithout_of_wantsRoom (path : Path) {fault : OptionFault}
    (wants : fault.WantsRoom) :
    ∃ breakdown, runWithout path fault = .error breakdown ∧ breakdown.WantsRoom := by
  cases wants with
  | settings => exact ⟨_, rfl, .settings⟩
  | mode => exact ⟨_, rfl, .mode⟩

theorem wantsRoom_of_runWithout {path : Path} {fault : OptionFault} {breakdown : Breakdown}
    (broken : runWithout path fault = .error breakdown) (wants : breakdown.WantsRoom) :
    fault.WantsRoom := by
  revert broken
  fun_cases runWithout path fault with
  | case5 =>
      intro _
      exact .settings
  | case7 reason =>
      rintro ⟨⟩
      cases wants
      exact .mode
  | _ => rintro ⟨⟩ <;> cases wants

/-- Once options are made out no room is asked for. -/
theorem not_wantsRoom_of_runOptions {input : String} {verbose : Bool} {options : Options}
    {breakdown : Breakdown} (broken : runOptions files input verbose options = .error breakdown) :
    ¬ breakdown.WantsRoom := by
  have onFile command (stopped : runOnFile files options command = .error breakdown) :
      ¬ breakdown.WantsRoom := by
    rw [runOnFile] at stopped
    intro wants
    split at stopped
    · obtain rfl := Except.error.inj stopped
      cases wants
    · split at stopped
      · split at stopped <;> contradiction
      · obtain rfl := Except.error.inj stopped
        cases wants
  rw [runOptions] at broken
  split at broken
  · exact onFile _ broken
  · exact onFile _ broken
  · exact onFile _ broken
  · intro wants
    split at broken
    · obtain rfl := Except.error.inj broken
      cases wants
    · obtain rfl := Except.error.inj broken
      cases wants
    · contradiction

theorem map_eq_error_iff {answer : Except Breakdown Answer} {change : Answer → Answer}
    {breakdown : Breakdown} : answer.map change = .error breakdown ↔ answer = .error breakdown := by
  cases answer with
  | error stopped => exact ⟨fun broken => broken, fun broken => broken⟩
  | ok answered => exact ⟨nofun, nofun⟩

/-- A run breaks off for want of room exactly where options cannot be made out for want of it. -/
theorem run_wantsRoom_iff {input : String} :
    (∃ breakdown, run room files input arguments = .error breakdown ∧ breakdown.WantsRoom) ↔
      ∃ fault, arguments.options room files = .error fault ∧ fault.WantsRoom := by
  simp only [run, map_eq_error_iff]
  cases arguments.options room files with
  | error fault =>
      constructor
      · rintro ⟨breakdown, broken, wants⟩
        exact ⟨fault, rfl, wantsRoom_of_runWithout broken wants⟩
      · rintro ⟨_, ⟨⟩, wants⟩
        exact runWithout_of_wantsRoom _ wants
  | ok options =>
      refine iff_of_false ?_ nofun
      rintro ⟨breakdown, broken, wants⟩
      exact not_wantsRoom_of_runOptions broken wants

/-- A run that does not break off for want of room is the run with more room. -/
theorem run_of_more_room {input : String} (readingLe : room.reading ≤ more.reading)
    (showingLe : room.showing ≤ more.showing)
    (roomy : ∀ breakdown, run room files input arguments = .error breakdown →
      ¬ breakdown.WantsRoom) :
    run more files input arguments = run room files input arguments := by
  have optionsRoomy fault (failed : arguments.options room files = .error fault) :
      ¬ fault.WantsRoom := by
    intro wants
    obtain ⟨breakdown, broken, breakdownWants⟩ :=
      run_wantsRoom_iff.mpr ⟨fault, failed, wants⟩
    exact roomy breakdown broken breakdownWants
  rw [run, run, options_of_more_room readingLe showingLe optionsRoomy]

/-- Whatever is typed in, there is a room in which a run does not break off for want of room, and
more room makes no difference to it. -/
theorem exists_room_for_run (files : Files) (arguments : Arguments) :
    ∃ room : Toml.Room, ∀ input,
      (∀ breakdown, run room files input arguments = .error breakdown → ¬ breakdown.WantsRoom) ∧
        ∀ more : Toml.Room, room.reading ≤ more.reading → room.showing ≤ more.showing →
          run more files input arguments = run room files input arguments := by
  obtain ⟨room, enough⟩ := exists_room_for_options files arguments
  refine ⟨room, fun input => ?_⟩
  have roomy breakdown (broken : run room files input arguments = .error breakdown) :
      ¬ breakdown.WantsRoom := by
    intro wants
    obtain ⟨fault, failed, faultWants⟩ := run_wantsRoom_iff.mp ⟨breakdown, broken, wants⟩
    exact enough fault (options_eq_error_iff.mp failed) faultWants
  exact ⟨roomy, fun more readingLe showingLe => run_of_more_room readingLe showingLe roomy⟩

end PrattSyntax.CommandLine
