import Aegis.Scheduler.Cron

/-!
# Scheduler.Clock

Instants as texts: `time.Parse` for RFC 3339 timestamps and days, and the day of an instant in
UTC.
-/

namespace Aegis

namespace Time

def daysFromCivil (year month day : Int) : Int :=
  let y := if month ≤ 2 then year - 1 else year
  let m := if month ≤ 2 then month + 9 else month - 3
  365 * y + y / 4 - y / 100 + y / 400 + (153 * m + 2) / 5 + day - 1 - 719468

def isLeap (year : Int) : Bool := year % 4 == 0 && (year % 100 != 0 || year % 400 == 0)

def daysIn (month year : Int) : Int :=
  if month == 2 then if isLeap year then 29 else 28
  else if month == 4 || month == 6 || month == 9 || month == 11 then 30
  else 31

/-- `t.Year()` in UTC. -/
def year (t : Time) : Int :=
  let y := (t.dayNumber (fun _ => 0) + 719468) / 146097 * 400 + t.yearOfEra fun _ => 0
  if t.monthFromMarch (fun _ => 0) < 10 then y else y + 1

def bounded (min max : Int) (digits : List Char) : Option Int :=
  (decimal digits).filter fun v => min ≤ v && v ≤ max

def parseHour : List Char → Option (Int × List Char)
  | a :: b :: rest =>
    if b.isDigit then (bounded 0 23 [a, b]).map fun h => (h, rest)
    else (bounded 0 23 [a]).map fun h => (h, b :: rest)
  | [a] => (bounded 0 23 [a]).map fun h => (h, [])
  | [] => none

def parseFraction : List Char → Int × List Char
  | c :: d :: rest =>
    if (c == '.' || c == ',') && d.isDigit then
      let digits := (d :: rest).takeWhile Char.isDigit
      let nano := (digits.take 9) ++ List.replicate (9 - digits.length) '0'
      ((decimal nano).getD 0, (d :: rest).dropWhile Char.isDigit)
    else (0, c :: d :: rest)
  | s => (0, s)

def parseOffset : List Char → Option Int
  | ['Z'] => some 0
  | [sign, h₁, h₂, ':', m₁, m₂] => do
    let h ← bounded 0 24 [h₁, h₂]
    let m ← bounded 0 60 [m₁, m₂]
    match sign with
    | '+' => some (60 * (60 * h + m))
    | '-' => some (-(60 * (60 * h + m)))
    | _ => none
  | _ => none

def parseClock (s : List Char) : Option (Int × Int) := do
  let (h, rest) ← parseHour s
  match rest with
  | ':' :: m₁ :: m₂ :: ':' :: s₁ :: s₂ :: rest =>
    let m ← bounded 0 59 [m₁, m₂]
    let s ← bounded 0 59 [s₁, s₂]
    let (nano, rest) := parseFraction rest
    let offset ← parseOffset rest
    some (Duration.second * (3600 * h + 60 * m + s) + nano, offset)
  | _ => none

/-- `time.Parse(time.RFC3339, s)`, as an instant. -/
def parseRFC3339 (s : String) : Option Time :=
  match s.toList with
  | y₁ :: y₂ :: y₃ :: y₄ :: '-' :: m₁ :: m₂ :: '-' :: d₁ :: d₂ :: 'T' :: clock => do
    let year ← decimal [y₁, y₂, y₃, y₄]
    let month ← bounded 1 12 [m₁, m₂]
    let day ← bounded 1 (daysIn month year) [d₁, d₂]
    let (time, offset) ← parseClock clock
    some (24 * Duration.hour * daysFromCivil year month day + time - Duration.second * offset)
  | _ => none

/-- The date of a `2006-01-02` layout. -/
def parseDay (s : List Char) : Option (Int × Int × Int) :=
  match s with
  | [y₁, y₂, y₃, y₄, '-', m₁, m₂, '-', d₁, d₂] => do
    let year ← decimal [y₁, y₂, y₃, y₄]
    let month ← bounded 1 12 [m₁, m₂]
    let day ← bounded 1 (daysIn month year) [d₁, d₂]
    some (year, month, day)
  | _ => none

def pad (width : Nat) (n : Int) : String :=
  let digits := (Nat.repr n.natAbs).toList
  String.ofList ((if n < 0 then ['-'] else []) ++ List.replicate (width - digits.length) '0' ++ digits)

/-- `t.UTC().Format("2006-01-02")`. -/
def formatDay (t : Time) : String :=
  pad 4 t.year ++ "-" ++ pad 2 (t.month fun _ => 0) ++ "-" ++ pad 2 (t.day fun _ => 0)

example : formatDay 1709200800500000000 = "2024-02-29" := by decide

example : parseRFC3339 "2024-02-29T12:00:00.5+02:00" = some 1709200800500000000 := by decide

end Time

end Aegis
