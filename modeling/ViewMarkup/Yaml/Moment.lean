import ViewMarkup.Text.Basic

/-!
# Days and moments

A day of the calendar, and a moment of a day with the zone that it is told in.  Both can be written
with numbers that name no day or no moment; `Date.isReal` and `Moment.isReal` tell.
-/

namespace ViewMarkup

/-- A day of the calendar. -/
structure Date where
  year : Nat
  month : Nat
  day : Nat
  deriving DecidableEq

/-- A moment of a day. -/
structure Moment where
  date : Date
  hour : Nat
  minute : Nat
  second : Nat
  /-- Millionths of a second. -/
  millionths : Nat
  /-- How many minutes the zone is ahead, if there is one. -/
  zone : Option Int
  deriving DecidableEq

/-- The digits of a number, with zeros before them up to a width. -/
def Text.ofNatPadded (width n : Nat) : Text :=
  let digits := Text.ofNat n
  List.replicate (width - digits.length) (.char '0') ++ digits

namespace Date

def isLeap (year : Nat) : Bool :=
  year % 4 = 0 && (year % 100 != 0 || year % 400 = 0)

/-- How many days a month has; none if there is no such month. -/
def daysIn (year month : Nat) : Nat :=
  if month = 2 then if isLeap year then 29 else 28
  else if [4, 6, 9, 11].contains month then 30
  else if 1 ≤ month && month ≤ 12 then 31
  else 0

/-- Whether there is such a day. -/
def isReal (d : Date) : Bool :=
  1 ≤ d.year && d.year ≤ 9999 && 1 ≤ d.day && d.day ≤ daysIn d.year d.month

def text (d : Date) : Text :=
  Text.join "-" [Text.ofNatPadded 4 d.year, Text.ofNatPadded 2 d.month, Text.ofNatPadded 2 d.day]

def parts (d : Date) : List Nat :=
  [d.year, d.month, d.day]

/-- A day as it is shown inside another value. -/
def display (d : Date) : Text :=
  "datetime.date(" ++ Text.join ", " (d.parts.map Text.ofNat) ++ ")"

end Date

namespace Moment

/-- Whether there is such a moment.  A zone is less than a day ahead or behind. -/
def isReal (m : Moment) : Bool :=
  m.date.isReal && m.hour < 24 && m.minute < 60 && m.second < 60 &&
    m.zone.all fun ahead => ahead.natAbs < 1440

def zoneText (ahead : Int) : Text :=
  (if ahead < 0 then "-" else "+") ++ Text.ofNatPadded 2 (ahead.natAbs / 60) ++ ":" ++
    Text.ofNatPadded 2 (ahead.natAbs % 60)

def text (m : Moment) : Text :=
  let time := Text.join ":" ([m.hour, m.minute, m.second].map (Text.ofNatPadded 2))
  let places : Text :=
    if m.millionths = 0 then [] else .char '.' :: Text.ofNatPadded 6 m.millionths
  m.date.text ++ " " ++ time ++ places ++ (m.zone.map zoneText).getD []

/-- The numbers of a moment; seconds and their parts are left out if they are zero. -/
def parts (m : Moment) : List Nat :=
  m.date.parts ++ [m.hour, m.minute] ++
    if m.millionths != 0 then [m.second, m.millionths]
    else if m.second != 0 then [m.second]
    else []

/-- A zone as it is shown inside another value: whole days, then the seconds of a day. -/
def displayZone (ahead : Int) : Text :=
  if ahead = 0 then "datetime.timezone.utc"
  else
    let days : Text := if ahead < 0 then "days=-1, " else []
    let seconds := (if ahead < 0 then ahead + 1440 else ahead).toNat * 60
    "datetime.timezone(datetime.timedelta(" ++ days ++ "seconds=" ++ Text.ofNat seconds ++ "))"

/-- A moment as it is shown inside another value. -/
def display (m : Moment) : Text :=
  let zone : Option Text := m.zone.map fun ahead => ", tzinfo=" ++ displayZone ahead
  "datetime.datetime(" ++ Text.join ", " (m.parts.map Text.ofNat) ++ zone.getD [] ++ ")"

end Moment

end ViewMarkup
