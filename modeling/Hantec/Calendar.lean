import Hantec.Number.Arithmetic
import Hantec.Text.Split

/-!
# Dates

The moment at a number of milliseconds from the start of 1970, in universal time,
and masks that are filled with the parts of a moment.
-/

namespace Hantec

/-- Why a number of milliseconds has no date. -/
inductive DateError where
  | notANumber
  | beyondClock
  | beyondCalendar
  | year (n : Int)
  deriving DecidableEq, Repr

def DateError.message : DateError → String
  | .notANumber => "Invalid value NaN (not a number)"
  | .beyondClock => "timestamp out of range for platform time_t"
  | .beyondCalendar => "[Errno 75] Value too large for defined data type"
  | .year n => s!"year {n} is out of range"

structure Moment where
  year : Int
  month : Nat
  day : Nat
  hour : Nat
  minute : Nat
  second : Nat
  deriving DecidableEq, Repr

namespace Calendar

def eraDays : Int := 146097

/-- Year, month and day of a number of days from the start of 1970. Years are counted from March
on inside, so that the leap day is the last one. -/
def civil (days : Int) : Int × Nat × Nat :=
  let z := days + 719468
  let era := z.fdiv eraDays
  let dayOfEra := (z - era * eraDays).toNat
  let yearOfEra :=
    (dayOfEra - dayOfEra / 1460 + dayOfEra / 36524 - dayOfEra / 146096) / 365
  let dayOfYear := dayOfEra - (365 * yearOfEra + yearOfEra / 4 - yearOfEra / 100)
  let shifted := (5 * dayOfYear + 2) / 153
  let day := dayOfYear - (153 * shifted + 2) / 5 + 1
  let month := if shifted < 10 then shifted + 3 else shifted - 9
  let year := (yearOfEra : Int) + era * 400 + if month ≤ 2 then 1 else 0
  (year, month, day)

/-- The moment at a number of seconds from the start of 1970. -/
def ofSeconds (t : Int) : Moment :=
  let days := t.fdiv 86400
  let rest := (t - days * 86400).toNat
  let (year, month, day) := civil days
  ⟨year, month, day, rest / 3600, rest / 60 % 60, rest % 60⟩

/-- The nearest whole number, of two the even one. -/
def roundHalfEven (d : Dyadic) : Int :=
  let low := d.floor
  let twice := (⟨d.neg, 2 * d.mant, d.exp⟩ : Dyadic)
  if twice.floor == 2 * low then low
  else if twice.isWhole then (if low % 2 == 0 then low else low + 1)
  else low + 1

/-- The number of seconds that a clock can count up to. -/
def clockLimit : Int := 9223372036854775808

/-- The number of years that a calendar can count up to, from 1900 on. -/
def yearLimit : Int := 2147483648

/-- The whole seconds of a time in seconds, after rounding to microseconds. -/
def wholeSeconds (x : Float) : Except DateError Int :=
  match Dyadic.ofFloat? x with
  | none => .error (if x.isNaN then .notANumber else .beyondClock)
  | some d =>
    let whole := d.trunc
    let frac := (x - Float.ofInt whole) * 1000000
    let micros : Int := ((Dyadic.ofFloat? frac).map roundHalfEven).getD 0
    let seconds :=
      if 1000000 ≤ micros then whole + 1 else if micros < 0 then whole - 1 else whole
    if seconds < -clockLimit || clockLimit ≤ seconds then .error .beyondClock else .ok seconds

/-- The years that a date can have. -/
def isYear (n : Int) : Bool := 1 ≤ n && n ≤ 9999

/-- The moment of a number of milliseconds, in universal time: the local zone has no offset here.
The day before it has to have a date too. -/
def ofMillis (ms : Float) : Except DateError Moment := do
  let t ← wholeSeconds (ms / 1000)
  let m := ofSeconds t
  if m.year - 1900 < -yearLimit || yearLimit ≤ m.year - 1900 then throw .beyondCalendar
  if !isYear m.year then throw (.year m.year)
  let before := (ofSeconds (t - 86400)).year
  if !isYear before then throw (.year before)
  return m

def twoDigits (n : Nat) : String :=
  String.ofList [Nat.digitChar (n / 10 % 10), Nat.digitChar (n % 10)]

def maskWords (m : Moment) : List (String × String) :=
  [("YYYY", toString m.year), ("MM", twoDigits m.month), ("DD", twoDigits m.day),
   ("hh", twoDigits m.hour), ("mm", twoDigits m.minute), ("ss", twoDigits m.second)]

/-- The mask with its words replaced one after another. -/
def fillMask (m : Moment) (mask : String) : String :=
  (maskWords m).foldl (fun s (word, value) => Text.replace s word value) mask

def threeDigits (n : Nat) : String :=
  String.ofList [Nat.digitChar (n / 100 % 10), Nat.digitChar (n / 10 % 10), Nat.digitChar (n % 10)]

/-- The universal notation of a number of milliseconds from 1970 on. -/
def timestamp (ms : Nat) : String :=
  let m := ofSeconds (ms / 1000)
  s!"{m.year}-{twoDigits m.month}-{twoDigits m.day}T{twoDigits m.hour}:"
    ++ s!"{twoDigits m.minute}:{twoDigits m.second}.{threeDigits (ms % 1000)}Z"

end Calendar

end Hantec
