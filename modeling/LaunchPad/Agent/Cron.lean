/-
  LaunchPad.Agent.Cron — the agent's 5-field cron evaluator (`agent-rust/src/cron.rs`),
  in UTC: parsing an expression, matching a minute, the next fire and the fire that is
  due. Instants are epoch milliseconds.

  `chrono`'s calendar is the proleptic Gregorian one; `civilOfDay` computes the month and
  day of an epoch day, and instants outside chrono's range match nothing. A field's set of
  values is a list without repetitions, in order. The expansion loop of `expand_item`
  adds in `i64`; `expandSteps` bounds it by the 128 passes no item exceeds.

  Proved:
  - `dueCronFire_spec`: a due fire lies after the last fire and not after now, is a whole
    minute, and matches the schedule.
-/
import LaunchPad.Shared.Types
import Mathlib.Data.List.Dedup

namespace LaunchPad.Agent

structure CronSchedule where
  minutes : List Int
  hours : List Int
  dom : List Int
  months : List Int
  dow : List Int
  /-- The field was not `*`: drives the vixie rule. -/
  domRestricted : Bool
  dowRestricted : Bool
  deriving DecidableEq, Repr

def minuteMs : Int := 60000

/-- `SCAN_HORIZON_MINUTES`: how far the fire-time scans look. -/
def scanHorizonMinutes : Nat := 366 * 24 * 60

structure FieldSpec where
  name : String
  min : Int
  max : Int

def minuteField : FieldSpec := ⟨"minute", 0, 59⟩
def hourField : FieldSpec := ⟨"hour", 0, 23⟩
def domField : FieldSpec := ⟨"day of month", 1, 31⟩
def monthField : FieldSpec := ⟨"month", 1, 12⟩
def dowField : FieldSpec := ⟨"day of week", 0, 7⟩

def cronExpressionHint : String :=
  "5 space-separated fields: minute hour day-of-month month day-of-week (numeric; `*`, lists, ranges, and `/step` allowed; evaluated in UTC)"

/-! ## Parsing -/

/-- `str::parse::<i64>` on a nonempty run of ASCII digits: an overflow is an error. -/
def parseDigits (token : List Char) : Option Int :=
  let n : Int := token.foldl (fun n c => n * 10 + (c.toNat - '0'.toNat)) 0
  if n ≤ i64Max then some n else none

def parseNumber (token : List Char) (spec : FieldSpec) : Except String Int :=
  let invalid := spec.name ++ " field has invalid value \"" ++ String.ofList token ++ "\""
  if token.isEmpty || !token.all Char.isDigit then .error invalid
  else match parseDigits token with
    | none => .error invalid
    | some n =>
      if n < spec.min || n > spec.max then
        .error (spec.name ++ " field value " ++ toString n ++ " is out of range " ++ toString spec.min ++ "-"
          ++ toString spec.max)
      else .ok n

/-- `while v <= hi { values.push(v); v += step }`. -/
def expandSteps : Nat → Int → Int → Int → List Int
  | 0, _, _, _ => []
  | fuel + 1, v, hi, step => if v ≤ hi then v :: expandSteps fuel (i64 (v + step)) hi step else []

def parseStep (item : List Char) (step : Option (List Char)) (spec : FieldSpec) : Except String Int :=
  let invalid := spec.name ++ " field has invalid step in \"" ++ String.ofList item
    ++ "\" — step must be a positive integer"
  match step with
  | none => .ok 1
  | some s =>
    if s.isEmpty || !s.all Char.isDigit || parseDigits s == some 0 then .error invalid
    else match parseDigits s with
      | none => .error invalid
      | some n => .ok n

def parseRange (range : List Char) (hasStep : Bool) (spec : FieldSpec) : Except String (Int × Int) :=
  if range.isEmpty then .error (spec.name ++ " field has an empty value")
  else if range = ['*'] then .ok (spec.min, spec.max)
  else if range.contains '-' then
    match range.splitOn '-' with
    | [a, b] =>
      if a.isEmpty || b.isEmpty then
        .error (spec.name ++ " field has invalid range \"" ++ String.ofList range ++ "\"")
      else do
        let lo ← parseNumber a spec
        let hi ← parseNumber b spec
        if lo > hi then .error (spec.name ++ " field has an inverted range \"" ++ String.ofList range ++ "\"")
        else .ok (lo, hi)
    | _ => .error (spec.name ++ " field has invalid range \"" ++ String.ofList range ++ "\"")
  else do
    let lo ← parseNumber range spec
    -- `N/step` means N through max (vixie); a bare `N` is just N.
    .ok (lo, if hasStep then spec.max else lo)

/-- Expand one comma-separated item (`*`, N, N-M, with optional `/step`) into values. -/
def expandItem (item : List Char) (spec : FieldSpec) : Except String (List Int) := do
  let parts := item.splitOn '/'
  let rangePart := parts.head?.getD []
  let stepPart := parts[1]?
  if parts.length > 2 || stepPart == some [] then
    .error (spec.name ++ " field has invalid step in \"" ++ String.ofList item ++ "\"")
  else do
    let step ← parseStep item stepPart spec
    let (lo, hi) ← parseRange rangePart stepPart.isSome spec
    .ok (expandSteps 128 lo hi step)

structure ParsedField where
  values : List Int
  restricted : Bool

/-- A `BTreeSet` of the values. -/
def valueSet (values : List Int) : List Int := values.dedup.mergeSort

def parseField (field : List Char) (spec : FieldSpec) : Except String ParsedField :=
  if field = ['*'] then
    .ok ⟨(List.range (spec.max - spec.min + 1).toNat).map fun i => spec.min + (i : Int), false⟩
  else do
    let items ← (field.splitOn ',').mapM fun item => expandItem item spec
    -- `*/k` restricts the set; only a bare `*` counts as unrestricted (vixie).
    .ok ⟨valueSet items.flatten, true⟩

/-- The `White_Space` characters `split_whitespace` splits at. -/
def isWhiteSpace (c : Char) : Bool :=
  let n := c.toNat
  (9 ≤ n && n ≤ 13) || n == 0x20 || n == 0x85 || n == 0xA0 || n == 0x1680 || (0x2000 ≤ n && n ≤ 0x200A)
    || n == 0x2028 || n == 0x2029 || n == 0x202F || n == 0x205F || n == 0x3000

def splitWhitespace (s : String) : List (List Char) := (s.toList.splitOnP isWhiteSpace).filter (!·.isEmpty)

def parseCronExpression (expr : String) : Except String CronSchedule :=
  match splitWhitespace expr with
  | [f₁, f₂, f₃, f₄, f₅] => do
    let minutes ← parseField f₁ minuteField
    let hours ← parseField f₂ hourField
    let dom ← parseField f₃ domField
    let months ← parseField f₄ monthField
    let dow ← parseField f₅ dowField
    .ok { minutes := minutes.values, hours := hours.values, dom := dom.values, months := months.values
          -- Normalize dow 7 → 0 so matching only ever checks 0-6.
          dow := valueSet (dow.values.map fun v => if v = 7 then 0 else v)
          domRestricted := dom.restricted, dowRestricted := dow.restricted }
  | _ => .error ("cron expression must have exactly 5 fields — " ++ cronExpressionHint)

/-! ## Matching -/

/-- The month and day of an epoch day in the Gregorian calendar. -/
def civilOfDay (day : Int) : Int × Int :=
  let doe := (day + 719468) % 146097
  let yoe := (doe - doe / 1460 + doe / 36524 - doe / 146096) / 365
  let doy := doe - (365 * yoe + yoe / 4 - yoe / 100)
  let mp := (5 * doy + 2) / 153
  (if mp < 10 then mp + 3 else mp - 9, doy - (153 * mp + 2) / 5 + 1)

def dayMs : Int := 86400000

/-- chrono's first and last day: -262143-01-01 and 262142-12-31. -/
def chronoFirstDay : Int := -96465292
def chronoLastDay : Int := 95026236

/-- The UTC minute containing `ms` matches the schedule. -/
def cronMatchesMinute (s : CronSchedule) (ms : Int) : Bool :=
  let day := ms / dayMs
  if day < chronoFirstDay || day > chronoLastDay then false
  else
    let (month, dayOfMonth) := civilOfDay day
    let domMatch := s.dom.contains dayOfMonth
    let dowMatch := s.dow.contains ((day + 4) % 7)
    s.minutes.contains (ms / minuteMs % 60) && s.hours.contains (ms / (60 * minuteMs) % 24)
      && s.months.contains month
      -- Vixie rule: both restricted → OR; otherwise each restricted field must match.
      && if s.domRestricted && s.dowRestricted then domMatch || dowMatch else domMatch && dowMatch

def floorToMinute (ms : Int) : Int := ms / minuteMs * minuteMs

/-- The scan of `next_cron_fire`, `n` minutes from `t` on. -/
def nextFrom (s : CronSchedule) : Nat → Int → Option Int
  | 0, _ => none
  | n + 1, t => if cronMatchesMinute s t then some t else nextFrom s n (t + minuteMs)

def nextCronFire (s : CronSchedule) (afterMs : Int) : Option Int :=
  nextFrom s scanHorizonMinutes (floorToMinute afterMs + minuteMs)

/-- The scan of `due_cron_fire`, down from `t` while it is above `floor`. The horizon
    bounds the number of minutes, so `n` is never what ends it. -/
def dueFrom (s : CronSchedule) (floor : Int) : Nat → Int → Option Int
  | 0, _ => none
  | n + 1, t =>
    if t > floor then
      if cronMatchesMinute s t then some t else dueFrom s floor n (t - minuteMs)
    else none

/-- The run that is due now: the latest fire `t` with `lastFireMs < t ≤ nowMs`. -/
def dueCronFire (s : CronSchedule) (lastFireMs nowMs : Int) : Option Int :=
  dueFrom s (max lastFireMs (nowMs - scanHorizonMinutes * minuteMs)) scanHorizonMinutes (floorToMinute nowMs)

theorem dueFrom_spec {s : CronSchedule} {floor : Int} {n : Nat} {t f : Int} (ht : minuteMs ∣ t)
    (h : dueFrom s floor n t = some f) : floor < f ∧ f ≤ t ∧ minuteMs ∣ f ∧ cronMatchesMinute s f = true := by
  induction n generalizing t with
  | zero => cases h
  | succ n ih =>
    simp only [dueFrom] at h
    split at h
    · rename_i hlt
      split at h
      · rename_i hm
        cases h
        exact ⟨hlt, Int.le_refl _, ht, hm⟩
      · have := ih (Int.dvd_sub ht (Int.dvd_refl _)) h
        simp only [minuteMs] at this ⊢
        exact ⟨this.1, by omega, this.2.2⟩
    · cases h

theorem floorToMinute_le (ms : Int) : floorToMinute ms ≤ ms := by
  unfold floorToMinute minuteMs; omega

theorem dueCronFire_spec {s : CronSchedule} {last now f : Int} (h : dueCronFire s last now = some f) :
    last < f ∧ f ≤ now ∧ minuteMs ∣ f ∧ cronMatchesMinute s f = true := by
  have hd : minuteMs ∣ floorToMinute now := Int.dvd_mul_left _ _
  obtain ⟨hlast, hle, hrest⟩ := dueFrom_spec hd h
  have hnow := floorToMinute_le now
  exact ⟨by omega, by omega, hrest⟩

end LaunchPad.Agent
