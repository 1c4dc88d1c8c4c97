import StaticStyle.Text.Basic

namespace StaticStyle

namespace Calendar

def isLeapYear (year : Nat) : Bool := year % 4 == 0 && (year % 100 != 0 || year % 400 == 0)

def daysInMonth (year month : Nat) : Nat :=
  if month = 2 then if isLeapYear year then 29 else 28
  else if month = 4 ∨ month = 6 ∨ month = 9 ∨ month = 11 then 30
  else 31

/-- Whether three numbers are a day of the years 1 to 9999. -/
def IsDate (year month day : Nat) : Prop :=
  (1 ≤ year ∧ year ≤ 9999) ∧ (1 ≤ month ∧ month ≤ 12) ∧ 1 ≤ day ∧ day ≤ daysInMonth year month

instance (year month day : Nat) : Decidable (IsDate year month day) :=
  inferInstanceAs (Decidable (_ ∧ _))

end Calendar

structure Date where
  year : Nat
  month : Nat
  day : Nat
  isDate : Calendar.IsDate year month day
deriving DecidableEq, Repr

structure TimeOfDay where
  hour : Fin 24
  minute : Fin 60
  second : Fin 60
  microsecond : Fin 1000000
deriving DecidableEq, Repr

/-- How many minutes a clock is ahead of universal time. -/
structure Offset where
  minutes : Int
  withinDay : minutes.natAbs < 24 * 60
deriving DecidableEq, Repr

inductive Stamp where
  | date (day : Date)
  | time (clock : TimeOfDay)
  | dateTime (day : Date) (clock : TimeOfDay) (offset : Option Offset)
deriving DecidableEq, Repr

/-- A number with zeros in front, if it has fewer digits than `width`. -/
def Text.padded (width n : Nat) : Text :=
  List.replicate (width - (Text.ofNat n).length) (.char '0') ++ Text.ofNat n

def Date.text (date : Date) : Text :=
  Text.padded 4 date.year ++ "-" ++ Text.padded 2 date.month ++ "-" ++ Text.padded 2 date.day

def TimeOfDay.text (time : TimeOfDay) : Text :=
  let fraction : Text := if time.microsecond = 0 then [] else "." ++ Text.padded 6 time.microsecond
  Text.padded 2 time.hour ++ ":" ++ Text.padded 2 time.minute ++ ":" ++ Text.padded 2 time.second ++
    fraction

namespace Offset

/-- Universal time itself. -/
def none : Offset := ⟨0, by decide⟩

/-- The offset of a clock that is some hours and minutes behind or ahead. -/
def ofClock (isBehind : Bool) (hour : Fin 24) (minute : Fin 60) : Offset :=
  let minutes : Nat := 60 * hour + minute
  ⟨if isBehind then -(minutes : Int) else minutes, by split <;> omega⟩

def text (offset : Offset) : Text :=
  let minutes := offset.minutes.natAbs
  (if offset.minutes < 0 then "-" else "+") ++ Text.padded 2 (minutes / 60) ++ ":" ++
    Text.padded 2 (minutes % 60)

end Offset

namespace Stamp

/-- A stamp as it reads. -/
def text : Stamp → Text
  | date day => day.text
  | time clock => clock.text
  | dateTime day clock offset =>
    day.text ++ " " ++ clock.text ++ (offset.map Offset.text).getD []

/-- An expression that makes something of the parts of a date or a time. -/
def construct (name : String) (parts : List Text) : Text :=
  "datetime." ++ Text.ofString name ++ "(" ++ Text.join ", " parts ++ ")"

def dateParts (date : Date) : List Text := [date.year, date.month, date.day].map Text.ofNat

/-- The parts of a time of day. Seconds and their fractions are left out at the end where they are zero. -/
def timeParts (time : TimeOfDay) : List Text :=
  let behind : List Nat :=
    if time.microsecond ≠ 0 then [time.second, time.microsecond]
    else if time.second ≠ 0 then [time.second]
    else []
  ([(time.hour : Nat), (time.minute : Nat)] ++ behind).map Text.ofNat

/-- The zone of an offset. What is behind universal time is a day less and some seconds more. -/
def displayOffset (offset : Offset) : Text :=
  if offset.minutes = 0 then "datetime.timezone.utc"
  else
    let days : List Text := if offset.minutes < 0 then ["days=-1"] else []
    let seconds : Text := "seconds=" ++ Text.ofInt (offset.minutes % (24 * 60) * 60)
    construct "timezone" [construct "timedelta" (days ++ [seconds])]

/-- A stamp as it is displayed: the expression that makes it. -/
def display : Stamp → Text
  | date day => construct "date" (dateParts day)
  | time clock => construct "time" (timeParts clock)
  | dateTime day clock offset =>
    let zone := offset.toList.map fun offset => "tzinfo=" ++ displayOffset offset
    construct "datetime" (dateParts day ++ timeParts clock ++ zone)

end Stamp

end StaticStyle
