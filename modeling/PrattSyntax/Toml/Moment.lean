/-!
# Dates and times

A settings file may hold a date, a time, or both, and where it holds both, how far
its clocks are ahead. They are shown in digits, or inside of an array or a table as
they are built from their numbers.
-/

namespace PrattSyntax.Toml

/-- A number in digits, filled up with zeros. -/
def padded (width value : Nat) : String :=
  "".pushn '0' (width - (toString value).length) ++ toString value

/-- A date. -/
structure Date where
  year : Nat
  month : Nat
  day : Nat
deriving DecidableEq, Repr

namespace Date

/-- Whether a year has a leap day. -/
def isLeap (year : Nat) : Bool := year % 4 = 0 && (year % 100 ≠ 0 || year % 400 = 0)

/-- The days of a month. -/
def daysOf (year month : Nat) : Nat :=
  if month = 2 then if isLeap year then 29 else 28
  else if month ∈ [4, 6, 9, 11] then 30
  else 31

/-- Whether there is a date. There is no year zero. -/
def exists? (date : Date) : Bool :=
  1 ≤ date.year && date.day ≤ daysOf date.year date.month

/-- A date in digits. -/
def shown (date : Date) : String :=
  padded 4 date.year ++ "-" ++ padded 2 date.month ++ "-" ++ padded 2 date.day

/-- The numbers of a date. -/
def numbers (date : Date) : List Nat := [date.year, date.month, date.day]

end Date

/-- The time of a day, to the millionth of a second. -/
structure Clock where
  hour : Nat
  minute : Nat
  second : Nat
  micro : Nat
deriving DecidableEq, Repr

namespace Clock

/-- A time in digits. -/
def shown (clock : Clock) : String :=
  padded 2 clock.hour ++ ":" ++ padded 2 clock.minute ++ ":" ++ padded 2 clock.second
    ++ if clock.micro = 0 then "" else "." ++ padded 6 clock.micro

/-- The numbers of a time, without zeros for the last ones. -/
def numbers (clock : Clock) : List Nat :=
  [clock.hour, clock.minute]
    ++ (if clock.second = 0 ∧ clock.micro = 0 then [] else [clock.second])
    ++ (if clock.micro = 0 then [] else [clock.micro])

end Clock

/-- How many minutes clocks are ahead. -/
structure Offset where
  minutes : Int
deriving DecidableEq, Repr

namespace Offset

/-- An offset in digits. -/
def shown (offset : Offset) : String :=
  (if offset.minutes < 0 then "-" else "+") ++ padded 2 (offset.minutes.natAbs / 60) ++ ":"
    ++ padded 2 (offset.minutes.natAbs % 60)

/-- An offset as it is built. One that is behind is a day behind and seconds ahead. -/
def built (offset : Offset) : String :=
  if offset.minutes = 0 then "datetime.timezone.utc"
  else
    let seconds := 60 * offset.minutes
    "datetime.timezone(datetime.timedelta("
      ++ (if seconds < 0 then "days=-1, seconds=" ++ toString (86400 + seconds)
        else "seconds=" ++ toString seconds)
      ++ "))"

end Offset

/-- A date, a time, or both with the offset of the clocks where it is known. -/
inductive Moment where
  | day (date : Date)
  | time (clock : Clock)
  | both (date : Date) (clock : Clock) (offset : Option Offset)
deriving DecidableEq, Repr

namespace Moment

/-- Whether the date of a moment, if it has one, is a date that there is. -/
def exists? : Moment → Bool
  | day date => date.exists?
  | time _ => true
  | both date _ _ => date.exists?

/-- A moment in digits. -/
def shown : Moment → String
  | day date => date.shown
  | time clock => clock.shown
  | both date clock offset =>
      date.shown ++ " " ++ clock.shown ++ (offset.map Offset.shown).getD ""

/-- A moment as it is built. -/
def built : Moment → String
  | day date => "datetime.date(" ++ ", ".intercalate (date.numbers.map toString) ++ ")"
  | time clock => "datetime.time(" ++ ", ".intercalate (clock.numbers.map toString) ++ ")"
  | both date clock offset =>
      "datetime.datetime(" ++ ", ".intercalate ((date.numbers ++ clock.numbers).map toString)
        ++ (offset.map fun known => ", tzinfo=" ++ known.built).getD "" ++ ")"

/-- The calls that building takes: one, and those for an offset. -/
def calls : Moment → Nat
  | both _ _ (some offset) => if offset.minutes = 0 then 2 else 3
  | _ => 1

end Moment

end PrattSyntax.Toml
