import Mathlib.Data.List.Sort
import Aegis.Models

/-!
# Scheduler.Cron

The cron expressions of `schedules.go`: the parser of the five fields, and the search for the next
run.

* `CronSchedule.matchesAt` — the fields against the civil time of an instant in a location.
* `CronSchedule.nextRun` — the first matching minute after an instant, at most four years ahead.
* `computeNextRunInLocation` — the next run of an expression in a named timezone.

The timezone database is a parameter: `LoadLocation` gives the UTC offset in force at an instant.
-/

namespace Aegis

def Duration.second : Duration := 1000000000
def Duration.minute : Duration := 60 * second
def Duration.hour : Duration := 60 * minute

abbrev Location := Time → Int

/-- `time.LoadLocation`; `none` is a name it does not know. -/
abbrev Zones := String → Option Location

namespace Time

variable (t : Time) (loc : Location)

/-- The wall clock in `loc`, as seconds since the epoch. -/
def wall : Int := t / Duration.second + loc t

/-- `t.Minute()`. -/
def minuteOf : Int := t.wall loc / 60 % 60

/-- `t.Hour()`. -/
def hourOf : Int := t.wall loc / 3600 % 24

def dayNumber : Int := t.wall loc / 86400

/-- `t.Weekday()`, with Sunday as 0; the epoch was a Thursday. -/
def weekday : Int := (t.dayNumber loc + 4) % 7

/-- The day of the 400-year cycle of the Gregorian calendar; the years of the cycle begin on the
first of March, so that a leap day is the last day of its year. -/
def dayOfEra : Int := (t.dayNumber loc + 719468) % 146097

def yearOfEra : Int :=
  (t.dayOfEra loc - t.dayOfEra loc / 1460 + t.dayOfEra loc / 36524 - t.dayOfEra loc / 146096) / 365

def dayOfYear : Int :=
  t.dayOfEra loc - (365 * t.yearOfEra loc + t.yearOfEra loc / 4 - t.yearOfEra loc / 100)

def monthFromMarch : Int := (5 * t.dayOfYear loc + 2) / 153

/-- `t.Month()`. -/
def month : Int :=
  if t.monthFromMarch loc < 10 then t.monthFromMarch loc + 3 else t.monthFromMarch loc - 9

/-- `t.Day()`. -/
def day : Int := t.dayOfYear loc - (153 * t.monthFromMarch loc + 2) / 5 + 1

/-- `t.Truncate(d)`, for a `d` that divides the time from the zero `time.Time` to the epoch. -/
def truncate (d : Duration) : Time := t - t % d

end Time

/-! ## Parsing -/

/-- The errors of `parseCron`, `nextRun` and `ComputeNextRunInLocation`. -/
inductive CronError where
  | fieldCount (n : Nat)
  | field (name : String) (e : CronError)
  | invalidStep (s : String)
  | invalidField (s : String)
  | invalidRangeStart (s : String)
  | invalidRangeEnd (s : String)
  | invalidValue (s : String)
  | rangeOutOfBounds (part : String) (min max : Int)
  | valueOutOfBounds (v min max : Int)
  | noNextRun (expr : String)
  | invalidTimezone (name : String)
deriving DecidableEq

/-- The text of the error, with `quote` for the verb `%q`; the text of `LoadLocation` that follows
an unknown timezone is left out. -/
def CronError.text (quote : String → String) : CronError → String
  | fieldCount n => "cron expression must have 5 fields, got " ++ toString n
  | field name e => name ++ " field: " ++ e.text quote
  | invalidStep s => "invalid step " ++ quote s
  | invalidField s => "invalid field " ++ quote s
  | invalidRangeStart s => "invalid range start " ++ quote s
  | invalidRangeEnd s => "invalid range end " ++ quote s
  | invalidValue s => "invalid value " ++ quote s
  | rangeOutOfBounds part min max =>
    "range " ++ part ++ " out of bounds [" ++ toString min ++ "," ++ toString max ++ "]"
  | valueOutOfBounds v min max =>
    "value " ++ toString v ++ " out of bounds [" ++ toString min ++ "," ++ toString max ++ "]"
  | noNextRun expr => "could not find next run within 4 years for " ++ quote expr
  | invalidTimezone name => "invalid timezone " ++ quote name

def isSpace (c : Char) : Bool :=
  (9 ≤ c.toNat && c.toNat ≤ 13) || c.toNat == 32 || c.toNat == 0x85 || c.toNat == 0xA0 ||
    c.toNat == 0x1680 || (0x2000 ≤ c.toNat && c.toNat ≤ 0x200A) || c.toNat == 0x2028 ||
    c.toNat == 0x2029 || c.toNat == 0x202F || c.toNat == 0x205F || c.toNat == 0x3000

def fields (s : String) : List String :=
  ((s.toList.splitOnP isSpace).filter fun f => !f.isEmpty).map String.ofList

/-- `strings.Split`, by a separator of one character. -/
def split (s : String) (sep : Char) : List String := (s.toList.splitOn sep).map String.ofList

def trimSpace (s : String) : String :=
  String.ofList (((s.toList.dropWhile isSpace).reverse.dropWhile isSpace).reverse)

def decimal (digits : List Char) : Option Int :=
  if digits.isEmpty || !digits.all Char.isDigit then none
  else some (digits.foldl (fun n c => 10 * n + (c.toNat - 48 : Nat)) 0)

/-- `strconv.Atoi`: an optional sign and decimal digits, within 64 bits. -/
def atoi (s : String) : Option Int :=
  (match s.toList with
    | '-' :: digits => (decimal digits).map (- ·)
    | '+' :: digits => decimal digits
    | digits => decimal digits).filter fun v =>
      -9223372036854775808 ≤ v && v ≤ 9223372036854775807

/-- The integers from `a` to `b`. -/
def upTo (a b : Int) : List Int := (List.range (b + 1 - a).toNat).map fun i => a + (i : Int)

/-- `cronField`; `valid` lists the values its map holds. -/
structure CronField where
  min : Int
  max : Int
  valid : List Int
  star : Bool
deriving DecidableEq

def partValues (min max : Int) (part : String) : Except CronError (List Int) :=
  if part == "*" then .ok (upTo min max)
  else
    match split part '-' with
    | [a, b] =>
      match atoi a, atoi b with
      | none, _ => .error (.invalidRangeStart a)
      | some _, none => .error (.invalidRangeEnd b)
      | some start, some stop =>
        if start < min || max < stop || stop < start then .error (.rangeOutOfBounds part min max)
        else .ok (upTo start stop)
    | _ =>
      match atoi part with
      | none => .error (.invalidValue part)
      | some v => if v < min || max < v then .error (.valueOutOfBounds v min max) else .ok [v]

def baseAndStep (text : String) : Except CronError (String × Int) :=
  match split text '/' with
  | [base, s] =>
    match atoi s with
    | none => .error (.invalidStep s)
    | some step => if step ≤ 0 then .error (.invalidStep s) else .ok (base, step)
  | [_] => .ok (text, 1)
  | _ => .error (.invalidField text)

/-- Every `step`-th value of a list, from the first on. -/
def everyNth (step : Int) (values : List Int) : List Int :=
  (values.zipIdx.filter fun v => (v.2 : Int) % step == 0).map Prod.fst

def parseCronField (text : String) (min max : Int) : Except CronError CronField :=
  if text == "*" then .ok ⟨min, max, upTo min max, true⟩
  else do
    let (base, step) ← baseAndStep text
    let values ← (split base ',').mapM fun part => partValues min max (trimSpace part)
    pure ⟨min, max, everyNth step (values.flatten.dedup.insertionSort (· ≤ ·)), false⟩

structure CronSchedule where
  minute : CronField
  hour : CronField
  dom : CronField
  month : CronField
  dow : CronField
  expr : String
deriving DecidableEq

def namedField (name text : String) (min max : Int) : Except CronError CronField :=
  match parseCronField text min max with
  | .ok f => .ok f
  | .error e => .error (.field name e)

def parseCron (expr : String) : Except CronError CronSchedule :=
  match fields expr with
  | [minute, hour, dom, month, dow] => do
    let minute ← namedField "minute" minute 0 59
    let hour ← namedField "hour" hour 0 23
    let dom ← namedField "day-of-month" dom 1 31
    let month ← namedField "month" month 1 12
    let dow ← namedField "day-of-week" dow 0 6
    pure ⟨minute, hour, dom, month, dow, expr⟩
  | fields => .error (.fieldCount fields.length)

namespace CronSchedule

variable (cs : CronSchedule) (loc : Location)

/-- The day rule of `matches`. -/
def matchesDay (t : Time) : Bool :=
  if cs.dom.star && cs.dow.star then true
  else if cs.dom.star then cs.dow.valid.contains (t.weekday loc)
  else if cs.dow.star then cs.dom.valid.contains (t.day loc)
  else cs.dom.valid.contains (t.day loc) || cs.dow.valid.contains (t.weekday loc)

/-- `matches`. -/
def matchesAt (t : Time) : Bool :=
  cs.minute.valid.contains (t.minuteOf loc) && cs.hour.valid.contains (t.hourOf loc) &&
    cs.month.valid.contains (t.month loc) && cs.matchesDay loc t

/-- The loop of `nextRun`, for at most `n` minutes from `t` on. -/
def search (limit : Time) : Nat → Time → Option Time
  | 0, _ => none
  | n + 1, t =>
    if t < limit then
      if cs.matchesAt loc t then some t else search limit n (t + Duration.minute)
    else none

def searchMinutes : Nat := 4 * 366 * 24 * 60

def nextRun (after : Time) : Except CronError Time :=
  match cs.search loc (after + 4 * 366 * 24 * Duration.hour) searchMinutes
      ((after + Duration.minute).truncate Duration.minute) with
  | some t => .ok t
  | none => .error (.noNextRun cs.expr)

end CronSchedule

def computeNextRunInLocation (zones : Zones) (expr : String) (after : Time) (timezone : String) :
    Except CronError Time := do
  let cs ← parseCron expr
  let timezone := if timezone.isEmpty then "UTC" else timezone
  match zones timezone with
  | none => .error (.invalidTimezone timezone)
  | some loc => cs.nextRun loc after

namespace CronSchedule

variable {cs : CronSchedule} {loc : Location} {limit t next after : Time}

theorem lt_add_sub_emod (a : Int) {d : Int} (hd : 0 < d) : a < a + d - (a + d) % d := by
  have hlt := Int.emod_lt_of_pos (a + d) hd
  omega

theorem after_lt_truncate (after : Time) : after < (after + Duration.minute).truncate Duration.minute :=
  lt_add_sub_emod after (by decide)

theorem le_search {n : Nat} (h : cs.search loc limit n t = some next) : t ≤ next := by
  induction n generalizing t with
  | zero => cases h
  | succ n ih =>
    unfold search at h
    split at h
    · split at h
      · exact (Option.some.inj h).le
      · exact (Int.le_add_of_nonneg_right (by decide)).trans (ih h)
    · cases h

theorem lt_nextRun (h : cs.nextRun loc after = .ok next) : after < next := by
  unfold nextRun at h
  split at h
  · rename_i t hsearch
    cases h
    exact (after_lt_truncate after).trans_le (le_search hsearch)
  · cases h

end CronSchedule

theorem lt_computeNextRun {zones : Zones} {expr timezone : String} {after next : Time}
    (h : computeNextRunInLocation zones expr after timezone = .ok next) : after < next := by
  unfold computeNextRunInLocation at h
  cases hparse : parseCron expr with
  | error e =>
    rw [hparse] at h
    cases h
  | ok cs =>
    rw [hparse] at h
    simp only [bind, Except.bind] at h
    split at h
    · cases h
    · exact CronSchedule.lt_nextRun h

end Aegis
