/-
  LaunchPad.Shared.Cron — the CLI's 5-field cron evaluator (`shared/src/cron.ts`) and the
  schema's check of a service's `cron` (`shared/src/config.ts`), in UTC: parsing an
  expression, matching a minute, the next fire and the fire that is due.

  Numbers are doubles: of a text of digits the nearest one, `none` for Infinity. A field's
  set of values is a `Finset`. Instants are epoch milliseconds; the calendar is that of
  `Date`, which ends 8.64e15 ms from the epoch on either side. How a number prints is a
  parameter of the messages.

  Proved, against the language of `Lib.Crontab`:
  - `parseField_ok_iff`, `mem_parseField`: a field is accepted exactly when it is well formed,
    and has the values it stands for.
  - `ParsedAs.matches_iff`: an accepted schedule matches what the language says.
-/
import LaunchPad.Lib.Crontab
import LaunchPad.Lib.Double
import LaunchPad.Lib.Scan
import Mathlib.Data.Finset.Image

namespace LaunchPad.Cron

open Lib

structure CronSchedule where
  minutes : Finset Nat
  hours : Finset Nat
  dom : Finset Nat
  months : Finset Nat
  dow : Finset Nat
  /-- The field was not `*`: drives the vixie rule. -/
  domRestricted : Bool
  dowRestricted : Bool
  deriving DecidableEq

def minuteMs : Int := 60000

/-- `SCAN_HORIZON_MINUTES`. -/
def scanHorizonMinutes : Nat := 366 * 24 * 60

structure FieldSpec where
  name : String
  min : Nat
  max : Nat
  deriving DecidableEq

def minuteField : FieldSpec := ⟨"minute", 0, 59⟩
def hourField : FieldSpec := ⟨"hour", 0, 23⟩
def domField : FieldSpec := ⟨"day of month", 1, 31⟩
def monthField : FieldSpec := ⟨"month", 1, 12⟩
def dowField : FieldSpec := ⟨"day of week", 0, 7⟩

def cronExpressionHint : String :=
  "5 space-separated fields: minute hour day-of-month month day-of-week (numeric; `*`, lists, ranges, and `/step` allowed; evaluated in UTC)"

/-! ## Errors -/

inductive CronError where
  | fieldCount
  | invalidValue (field : String) (token : List Char)
  | outOfRange (field : String) (n : Option Nat) (min max : Nat)
  | invalidStep (field : String) (item : List Char)
  | stepNotPositive (field : String) (item : List Char)
  | emptyValue (field : String)
  | invalidRange (field : String) (range : List Char)
  | invertedRange (field : String) (range : List Char)
  deriving DecidableEq

/-- The message of an error, by how numbers print. -/
def CronError.message (printed : Option Nat → String) : CronError → String
  | .fieldCount => "cron expression must have exactly 5 fields — " ++ cronExpressionHint
  | .invalidValue field token => field ++ " field has invalid value \"" ++ String.ofList token ++ "\""
  | .outOfRange field n min max =>
    field ++ " field value " ++ printed n ++ " is out of range " ++ printed (some min) ++ "-" ++ printed (some max)
  | .invalidStep field item => field ++ " field has invalid step in \"" ++ String.ofList item ++ "\""
  | .stepNotPositive field item =>
    field ++ " field has invalid step in \"" ++ String.ofList item ++ "\" — step must be a positive integer"
  | .emptyValue field => field ++ " field has an empty value"
  | .invalidRange field range => field ++ " field has invalid range \"" ++ String.ofList range ++ "\""
  | .invertedRange field range => field ++ " field has an inverted range \"" ++ String.ofList range ++ "\""

/-! ## Parsing -/

/-- `/^\d+$/.test(token)`. -/
def allDigits (token : List Char) : Bool := !token.isEmpty && token.all Char.isDigit

/-- `Number.parseInt(token, 10)` of digits. -/
def parseInt (token : List Char) : Option Nat := Double.ofNat (Crontab.value token)

def parseNumber (token : List Char) (spec : FieldSpec) : Except CronError Nat :=
  if !allDigits token then .error (.invalidValue spec.name token)
  else match parseInt token with
    | none => .error (.outOfRange spec.name none spec.min spec.max)
    | some n => if n < spec.min || n > spec.max then .error (.outOfRange spec.name (some n) spec.min spec.max) else .ok n

/-- `for (let v = lo; v <= hi; v += step) values.push(v)`, of at most `fuel` passes. -/
def stepValues : Nat → Nat → Nat → Option Nat → List Nat
  | 0, _, _, _ => []
  | fuel + 1, v, hi, step =>
    if v ≤ hi then v :: ((step.bind fun k => Double.ofNat (v + k)).map fun v => stepValues fuel v hi step).getD [] else []

def parseStep (item : List Char) (stepPart : Option (List Char)) (spec : FieldSpec) : Except CronError (Option Nat) :=
  match stepPart with
  | none => .ok (some 1)
  | some s => if !allDigits s || parseInt s == some 0 then .error (.stepNotPositive spec.name item) else .ok (parseInt s)

def parseRange (rangePart : List Char) (hasStep : Bool) (spec : FieldSpec) : Except CronError (Nat × Nat) :=
  if rangePart.isEmpty then .error (.emptyValue spec.name)
  else if rangePart = ['*'] then .ok (spec.min, spec.max)
  else if rangePart.contains '-' then
    match rangePart.splitOn '-' with
    | [a, b] =>
      if a.isEmpty || b.isEmpty then .error (.invalidRange spec.name rangePart)
      else do
        let lo ← parseNumber a spec
        let hi ← parseNumber b spec
        if lo > hi then .error (.invertedRange spec.name rangePart) else .ok (lo, hi)
    | _ => .error (.invalidRange spec.name rangePart)
  else do
    let lo ← parseNumber rangePart spec
    -- `N/step` means N through max (vixie); a bare `N` is just N.
    .ok (lo, if hasStep then spec.max else lo)

/-- Expand one comma-separated item (`*`, N, N-M, with optional `/step`) into values. The
    numbers are below 60, so 60 passes are enough. -/
def expandItem (item : List Char) (spec : FieldSpec) : Except CronError (List Nat) := do
  let parts := item.splitOn '/'
  let rangePart := parts.head?.getD []
  let stepPart := parts[1]?
  if parts.length > 2 || stepPart == some [] then .error (.invalidStep spec.name item)
  else do
    let step ← parseStep item stepPart spec
    let (lo, hi) ← parseRange rangePart stepPart.isSome spec
    .ok (stepValues 60 lo hi step)

structure ParsedField where
  values : Finset Nat
  restricted : Bool

def parseField (field : List Char) (spec : FieldSpec) : Except CronError ParsedField :=
  if field = ['*'] then .ok ⟨(Finset.range (spec.max + 1)).filter fun v => spec.min ≤ v, false⟩
  else do
    let items ← (field.splitOn ',').mapM fun item => expandItem item spec
    -- `*/k` restricts the set; only a bare `*` counts as unrestricted (vixie).
    .ok ⟨items.flatten.toFinset, true⟩

/-- `\s`, which is also what `trim` strips. -/
def isSpace (c : Char) : Bool :=
  let n := c.toNat
  (9 ≤ n && n ≤ 13) || n == 0x20 || n == 0xA0 || n == 0x1680 || (0x2000 ≤ n && n ≤ 0x200A) || n == 0x2028 || n == 0x2029
    || n == 0x202F || n == 0x205F || n == 0x3000 || n == 0xFEFF

/-- `expr.trim().split(/\s+/).filter((f) => f.length > 0)`. -/
def splitFields (expr : String) : List (List Char) := (expr.toList.splitOnP isSpace).filter (!·.isEmpty)

def parseCronExpression (expr : String) : Except CronError CronSchedule :=
  match splitFields expr with
  | [f₁, f₂, f₃, f₄, f₅] => do
    let minutes ← parseField f₁ minuteField
    let hours ← parseField f₂ hourField
    let dom ← parseField f₃ domField
    let months ← parseField f₄ monthField
    let dow ← parseField f₅ dowField
    .ok { minutes := minutes.values, hours := hours.values, dom := dom.values, months := months.values
          -- Normalize dow 7 → 0 so matching only ever checks 0-6.
          dow := dow.values.image fun v => if v = 7 then 0 else v
          domRestricted := dom.restricted, dowRestricted := dow.restricted }
  | _ => .error .fieldCount

def cronExpressionError (printed : Option Nat → String) (expr : String) : Option String :=
  match parseCronExpression expr with
  | .ok _ => none
  | .error e => some (e.message printed)

/-! ## Matching -/

def dayMs : Int := 86400000

/-- How far from the epoch a `Date` reaches. -/
def maxTime : Int := 8640000000000000

/-- An instant that a `Date` holds. -/
def InTime (ms : Int) : Prop := -maxTime ≤ ms ∧ ms ≤ maxTime

instance (ms : Int) : Decidable (InTime ms) := inferInstanceAs (Decidable (_ ∧ _))

/-- The UTC minute containing `ms` matches the schedule. Out of a `Date`'s range every
    part is `NaN`, which no set has. -/
def cronMatchesMinute (s : CronSchedule) (ms : Int) : Bool :=
  if InTime ms then
    let day := ms / dayMs
    let date := Calendar.ofDay day
    let domMatch := decide (date.day.toNat ∈ s.dom)
    let dowMatch := decide (((day + 4) % 7).toNat ∈ s.dow)
    decide ((ms / minuteMs % 60).toNat ∈ s.minutes) && decide ((ms / (60 * minuteMs) % 24).toNat ∈ s.hours)
      && decide (date.month.toNat ∈ s.months)
      -- Vixie rule: both restricted → OR; otherwise each restricted field must match.
      && if s.domRestricted && s.dowRestricted then domMatch || dowMatch else domMatch && dowMatch
  else false

def floorToMinute (ms : Int) : Int := ms / minuteMs * minuteMs

/-- The first fire after an instant, within the horizon. -/
def nextCronFire (s : CronSchedule) (afterMs : Int) : Option Int :=
  Scan.up (cronMatchesMinute s) minuteMs scanHorizonMinutes (floorToMinute afterMs + minuteMs)

/-- The run that is due now. The horizon bounds the number of minutes above the floor. -/
def dueCronFire (s : CronSchedule) (lastFireMs nowMs : Int) : Option Int :=
  Scan.down (cronMatchesMinute s) minuteMs (max lastFireMs (nowMs - scanHorizonMinutes * minuteMs)) scanHorizonMinutes
    (floorToMinute nowMs)

/-- What the schema says against a service's `cron`. -/
inductive CronIssue where
  | expression (message : String)
  /-- "cron expression never fires (no matching date within a year)". -/
  | neverFires
  deriving DecidableEq

/-- The schema's two checks, at the instant of the validation. -/
def cronIssue (printed : Option Nat → String) (cron : String) (nowMs : Int) : Option CronIssue :=
  match parseCronExpression cron with
  | .error e => some (.expression (e.message printed))
  | .ok s => if nextCronFire s nowMs = none then some .neverFires else none

/-! ## Numbers -/

/-- A field of the parser has the range of a field of the language. -/
structure SpecOf (spec : FieldSpec) (F : Crontab.Field) : Prop where
  min : spec.min = F.min
  max : spec.max = F.max
  le : F.min ≤ F.max
  small : F.max ≤ 59

theorem minute_spec : SpecOf minuteField Crontab.minute := ⟨rfl, rfl, by decide, by decide⟩
theorem hour_spec : SpecOf hourField Crontab.hour := ⟨rfl, rfl, by decide, by decide⟩
theorem dom_spec : SpecOf domField Crontab.dayOfMonth := ⟨rfl, rfl, by decide, by decide⟩
theorem month_spec : SpecOf monthField Crontab.month := ⟨rfl, rfl, by decide, by decide⟩
theorem dow_spec : SpecOf dowField Crontab.dayOfWeek := ⟨rfl, rfl, by decide, by decide⟩

theorem double_small {n : Nat} (h : n < 2 ^ 53) : Double.ofNat n = some n := Double.isDouble_of_lt h

theorem double_one : Double.ofNat 1 = some 1 := double_small (by decide)

/-- What a number rounds to is below a bound of 53 bits only if the number is. -/
theorem double_of_small {n m : Nat} (h : Double.ofNat n = some m) (hm : m < 2 ^ 53) : m = n := by
  obtain ⟨hround, _⟩ := Double.ofNat_eq_some.mp h
  rw [← hround] at hm ⊢
  exact Double.round_lt hm

theorem allDigits_iff {token : List Char} : allDigits token = true ↔ Crontab.Numeral token := by
  unfold allDigits Crontab.Numeral
  simp

theorem parseNumber_ok {token : List Char} {spec : FieldSpec} {F : Crontab.Field} (hF : SpecOf spec F) {n : Nat} :
    parseNumber token spec = .ok n ↔
      Crontab.Numeral token ∧ n = Crontab.value token ∧ F.min ≤ Crontab.value token ∧ Crontab.value token ≤ F.max := by
  obtain ⟨hmin, hmax, _, hsmall⟩ := hF
  unfold parseNumber
  by_cases hnum : allDigits token = true
  · rw [if_neg (by simp [hnum])]
    constructor
    · intro h
      split at h
      · cases h
      · rename_i m hm
        split at h
        · cases h
        · rename_i hin
          simp only [Bool.or_eq_true, decide_eq_true_eq, not_or, not_lt, hmin, hmax] at hin
          cases h
          obtain rfl := double_of_small hm (by omega)
          exact ⟨allDigits_iff.mp hnum, rfl, hin.1, hin.2⟩
    · rintro ⟨_, rfl, h1, h2⟩
      have hint : parseInt token = some (Crontab.value token) := double_small (by omega)
      simp only [hint, hmin, hmax]
      rw [if_neg (by simp only [Bool.or_eq_true, decide_eq_true_eq]; omega)]
  · rw [if_pos (by simp [hnum])]
    refine iff_of_false (by simp) fun h => hnum (allDigits_iff.mpr h.1)

theorem parseStep_ok {item : List Char} {stepPart : Option (List Char)} {spec : FieldSpec} {n : Option Nat} :
    parseStep item stepPart spec = .ok n ↔
      (stepPart = none ∧ n = some 1) ∨
        ∃ k, stepPart = some k ∧ Crontab.Numeral k ∧ 0 < Crontab.value k ∧ n = Double.ofNat (Crontab.value k) := by
  unfold parseStep
  cases stepPart with
  | none => simp [eq_comm]
  | some k =>
    have hzero : parseInt k = some 0 ↔ Crontab.value k = 0 := by
      constructor
      · intro h
        exact (double_of_small h (by decide)).symm
      · intro h
        unfold parseInt
        rw [h]
        exact double_small (by decide)
    simp only [reduceCtorEq, false_and, false_or, Option.some.injEq, exists_eq_left']
    by_cases hnum : allDigits k = true
    · by_cases hz : Crontab.value k = 0
      · rw [if_pos (by simp [hzero.mpr hz])]
        refine iff_of_false (by simp) ?_
        rintro ⟨_, hpos, _⟩
        omega
      · rw [if_neg (by simp [hnum, hzero, hz])]
        simp only [Except.ok.injEq, parseInt]
        exact ⟨fun h => ⟨allDigits_iff.mp hnum, by omega, h.symm⟩, fun h => h.2.2.symm⟩
    · rw [if_pos (by simp [hnum])]
      exact iff_of_false (by simp) fun h => hnum (allDigits_iff.mpr h.1)

/-! ## The loop -/

/-- The next value of the loop is the sum, or lies beyond the range as the sum does. -/
theorem next_value {v k hi : Nat} (hv : v ≤ 59) (hhi : hi ≤ 59) :
    (v + k ≤ hi ∧ (Double.ofNat k).bind (fun k => Double.ofNat (v + k)) = some (v + k)) ∨
      (hi < v + k ∧ ∀ w, (Double.ofNat k).bind (fun k => Double.ofNat (v + k)) = some w → hi < w) := by
  by_cases hle : v + k ≤ hi
  · refine .inl ⟨hle, ?_⟩
    rw [double_small (by omega), Option.bind_some, double_small (by omega)]
  · refine .inr ⟨by omega, fun w hw => ?_⟩
    obtain ⟨k', hk', hw⟩ := Option.bind_eq_some_iff.mp hw
    by_contra hsmall
    -- A small sum would be of a small step, which is the step that was written.
    obtain rfl := double_of_small hw (by omega)
    obtain rfl := double_of_small hk' (by omega)
    omega

theorem mem_stepValues {k hi : Nat} (hk : 0 < k) (hhi : hi ≤ 59) (fuel : Nat) : ∀ v, v ≤ 59 → hi < v + fuel → ∀ u,
    u ∈ stepValues fuel v hi (Double.ofNat k) ↔ Crontab.Steps v hi k u := by
  induction fuel with
  | zero =>
    intro v _ hf u
    refine iff_of_false List.not_mem_nil ?_
    rintro ⟨j, rfl, hle⟩
    have := Nat.le_add_right v (j * k)
    omega
  | succ fuel ih =>
    intro v hv hf u
    unfold stepValues
    split
    · rename_i hle
      rw [List.mem_cons]
      rcases next_value (k := k) hv hhi with ⟨hnext, hsum⟩ | ⟨hbeyond, hnone⟩
      · rw [hsum, Option.map_some, Option.getD_some, ih (v + k) (by omega) (by omega) u]
        constructor
        · rintro (rfl | ⟨j, rfl, hu⟩)
          · exact ⟨0, by simp, hle⟩
          · exact ⟨j + 1, by rw [Nat.add_mul]; omega, by omega⟩
        · rintro ⟨j, rfl, hu⟩
          cases j with
          | zero => exact .inl (by simp)
          | succ j => exact .inr ⟨j, by rw [Nat.add_mul]; omega, hu⟩
      · have hend : ((((Double.ofNat k).bind fun k => Double.ofNat (v + k)).map fun v =>
            stepValues fuel v hi (Double.ofNat k)).getD []) = [] := by
          cases hw : (Double.ofNat k).bind fun k => Double.ofNat (v + k) with
          | none => rfl
          | some w =>
            rw [Option.map_some, Option.getD_some]
            cases fuel with
            | zero => rfl
            | succ fuel =>
              unfold stepValues
              rw [if_neg (Nat.not_le.mpr (hnone w hw))]
        rw [hend]
        constructor
        · rintro (rfl | hu)
          · exact ⟨0, by simp, hle⟩
          · cases hu
        · rintro ⟨j, rfl, hu⟩
          cases j with
          | zero => exact .inl (by simp)
          | succ j =>
            rw [Nat.add_mul] at hu
            omega
    · rename_i hgt
      refine iff_of_false List.not_mem_nil ?_
      rintro ⟨j, rfl, hle⟩
      have := Nat.le_add_right v (j * k)
      omega

/-! ## Items and fields -/

section Fields

variable {spec : FieldSpec} {F : Crontab.Field}

theorem parseRange_number {text : List Char} {hasStep : Bool} (hF : SpecOf spec F) (hn : Crontab.Numeral text)
    (hmin : F.min ≤ Crontab.value text) (hmax : Crontab.value text ≤ F.max) :
    parseRange text hasStep spec = .ok (Crontab.value text, if hasStep = true then spec.max else Crontab.value text) := by
  have hstar : text ≠ ['*'] := by
    rintro rfl
    exact hn.not_mem (c := '*') (by decide) (List.mem_singleton_self _)
  have hdash : ¬ text.contains '-' = true := by
    rw [List.contains_iff_mem]
    exact hn.not_mem (by decide)
  unfold parseRange
  rw [if_neg (by simpa using hn.1), if_neg hstar, if_neg hdash, (parseNumber_ok hF).mpr ⟨hn, rfl, hmin, hmax⟩]
  rfl

theorem parseRange_pair {a b : List Char} {hasStep : Bool} (hF : SpecOf spec F) (ha : Crontab.Numeral a)
    (hb : Crontab.Numeral b) (hmin : F.min ≤ Crontab.value a) (hle : Crontab.value a ≤ Crontab.value b)
    (hmax : Crontab.value b ≤ F.max) :
    parseRange (a ++ '-' :: b) hasStep spec = .ok (Crontab.value a, Crontab.value b) := by
  have hsplit : (a ++ '-' :: b).splitOn '-' = [a, b] :=
    splitOn_two_iff.mpr ⟨rfl, ha.not_mem (by decide), hb.not_mem (by decide)⟩
  have hempty : (a.isEmpty || b.isEmpty) = false := by simp [ha.1, hb.1]
  have hlo := (parseNumber_ok hF).mpr ⟨ha, rfl, hmin, Nat.le_trans hle hmax⟩
  have hhi := (parseNumber_ok hF).mpr ⟨hb, rfl, Nat.le_trans hmin hle, hmax⟩
  have hstar : a ++ '-' :: b ≠ ['*'] := by
    intro h
    have : '-' ∈ ['*'] := by rw [← h]; simp
    exact absurd this (by decide)
  unfold parseRange
  rw [if_neg (by simp), if_neg hstar, if_pos (by simp)]
  simp only [hsplit, hempty, Bool.false_eq_true, if_false]
  refine bind_eq_ok.mpr ⟨_, hlo, bind_eq_ok.mpr ⟨_, hhi, ?_⟩⟩
  rw [if_neg (by omega)]

theorem span_of_parseRange {range : List Char} {hasStep : Bool} (hF : SpecOf spec F) {lo hi : Nat}
    (h : parseRange range hasStep spec = .ok (lo, hi)) : Crontab.Span F range hasStep lo hi := by
  unfold parseRange at h
  split at h
  · cases h
  split at h
  · rename_i hstar
    cases h
    rw [hstar, hF.min, hF.max]
    exact .star
  split at h
  · split at h
    · rename_i a b hab
      obtain ⟨rfl, _, _⟩ := splitOn_two_iff.mp hab
      split at h
      · cases h
      obtain ⟨x, ha, h⟩ := bind_eq_ok.mp h
      obtain ⟨y, hb, h⟩ := bind_eq_ok.mp h
      split at h
      · cases h
      rename_i hle
      cases h
      obtain ⟨hna, rfl, hamin, _⟩ := (parseNumber_ok hF).mp ha
      obtain ⟨hnb, rfl, _, hbmax⟩ := (parseNumber_ok hF).mp hb
      exact .range hna hnb hamin (by omega) hbmax
    · cases h
  · obtain ⟨x, hn, h⟩ := bind_eq_ok.mp h
    obtain ⟨hnum, rfl, hmin, hmax⟩ := (parseNumber_ok hF).mp hn
    cases hasStep with
    | false => cases h; exact .number hnum hmin hmax
    | true =>
      cases h
      rw [if_pos rfl, hF.max]
      exact .numberUp hnum hmin hmax

theorem parseRange_ok {range : List Char} {hasStep : Bool} (hF : SpecOf spec F) {lo hi : Nat} :
    parseRange range hasStep spec = .ok (lo, hi) ↔ Crontab.Span F range hasStep lo hi := by
  constructor
  · exact span_of_parseRange hF
  · intro hspan
    cases hspan with
    | star =>
      unfold parseRange
      rw [if_neg (by decide), if_pos rfl, hF.min, hF.max]
    | number hn hmin hmax =>
      rw [parseRange_number hF hn hmin hmax]
      rfl
    | numberUp hn hmin hmax =>
      rw [parseRange_number hF hn hmin hmax, ← hF.max]
      rfl
    | range ha hb hmin hle hmax => exact parseRange_pair hF ha hb hmin hle hmax

/-- An item's two parts, once they are read. -/
theorem expandItem_of_parts {item range : List Char} (stepPart : Option (List Char)) {step : Option Nat} {lo hi : Nat}
    (hhead : (item.splitOn '/').head?.getD [] = range) (hstep : (item.splitOn '/')[1]? = stepPart)
    (hlen : (item.splitOn '/').length ≤ 2) (hne : stepPart ≠ some []) (hs : parseStep item stepPart spec = .ok step)
    (hr : parseRange range stepPart.isSome spec = .ok (lo, hi)) : expandItem item spec = .ok (stepValues 60 lo hi step) := by
  unfold expandItem
  simp only [hhead, hstep]
  rw [if_neg (by simp [hne]; omega)]
  simp only [hs, hr, bind, Except.bind]

/-- What an accepted item is made of: a range and, after the slash, a step. -/
theorem item_of_parts {item : List Char} {step : Option Nat} {lo hi : Nat}
    (hlen : (item.splitOn '/').length ≤ 2) (hst : parseStep item (item.splitOn '/')[1]? spec = .ok step)
    (hspan : Crontab.Span F ((item.splitOn '/').head?.getD []) (item.splitOn '/')[1]?.isSome lo hi) :
    ∃ k, Crontab.Item F item lo hi k ∧ step = Double.ofNat k := by
  match hs : item.splitOn '/' with
  | [] => exact absurd hs (List.splitOn_ne_nil '/' item)
  | [range] =>
    simp only [hs, List.head?_cons, Option.getD_some] at hspan hst
    obtain ⟨rfl, _⟩ := splitOn_one_iff.mp hs
    rcases parseStep_ok.mp hst with ⟨_, rfl⟩ | ⟨k, hk, _⟩
    · exact ⟨1, .plain hspan, double_one.symm⟩
    · cases hk
  | [range, k] =>
    simp only [hs, List.head?_cons, Option.getD_some] at hspan hst
    obtain ⟨rfl, _, _⟩ := splitOn_two_iff.mp hs
    rcases parseStep_ok.mp hst with ⟨hno, _⟩ | ⟨k', hk', hnum, hpos, hstep⟩
    · cases hno
    · cases hk'
      exact ⟨_, .stepped hspan hnum hpos, hstep⟩
  | _ :: _ :: _ :: _ =>
    rw [hs] at hlen
    simp only [List.length_cons] at hlen
    omega

/-- The items that are accepted are the language's, and their values are those of the loop. -/
theorem expandItem_ok {item : List Char} (hF : SpecOf spec F) {vs : List Nat} :
    expandItem item spec = .ok vs ↔
      ∃ lo hi k, Crontab.Item F item lo hi k ∧ vs = stepValues 60 lo hi (Double.ofNat k) := by
  constructor
  · intro h
    unfold expandItem at h
    simp only at h
    split at h
    · cases h
    rename_i hshape
    simp only [Bool.or_eq_true, decide_eq_true_eq, beq_iff_eq, not_or, Nat.not_lt] at hshape
    obtain ⟨step, hst, h⟩ := bind_eq_ok.mp h
    obtain ⟨⟨lo, hi⟩, hra, h⟩ := bind_eq_ok.mp h
    have hvs := Except.ok.inj h
    obtain ⟨k, hitem, hstep⟩ := item_of_parts hshape.1 hst ((parseRange_ok hF).mp hra)
    refine ⟨lo, hi, k, hitem, ?_⟩
    rw [← hvs, hstep]
  · rintro ⟨lo, hi, k, hitem, rfl⟩
    cases hitem with
    | plain hspan =>
      have hs := splitOn_one_iff.mpr ⟨rfl, hspan.no_slash⟩
      refine expandItem_of_parts none (by rw [hs]; rfl) (by rw [hs]; rfl) (by rw [hs]; simp) (by simp) ?_
        ((parseRange_ok hF).mpr hspan)
      exact parseStep_ok.mpr (.inl ⟨rfl, double_one⟩)
    | @stepped range k _ _ hspan hk hpos =>
      have hs := splitOn_two_iff.mpr ⟨rfl, hspan.no_slash, hk.not_mem (c := '/') (by decide)⟩
      refine expandItem_of_parts (some k) (by rw [hs]; rfl) (by rw [hs]; rfl) (by rw [hs]; simp) (by simp [hk.1]) ?_
        ((parseRange_ok hF).mpr hspan)
      exact parseStep_ok.mpr (.inr ⟨k, rfl, hk, hpos, rfl⟩)

variable {field : List Char}

theorem parseField_ok_iff (hF : SpecOf spec F) : (∃ p, parseField field spec = .ok p) ↔ Crontab.WellFormed F field := by
  unfold parseField
  by_cases hstar : field = ['*']
  · rw [if_pos hstar, hstar]
    exact iff_of_true ⟨_, rfl⟩ (Crontab.wellFormed_star F)
  · rw [if_neg hstar]
    constructor
    · intro ⟨p, h⟩ item hitem
      obtain ⟨ys, hm, _⟩ := bind_eq_ok.mp h
      obtain ⟨y, _, hy⟩ := (mapM_ok_iff hm).1 item hitem
      obtain ⟨lo, hi, k, hI, _⟩ := (expandItem_ok hF).mp hy
      exact ⟨lo, hi, k, hI⟩
    · intro h
      obtain ⟨ys, hys⟩ := mapM_ok_exists (f := fun item => expandItem item spec) (l := field.splitOn ',') fun item hitem => by
        obtain ⟨lo, hi, k, hI⟩ := h item hitem
        exact ⟨_, (expandItem_ok hF).mpr ⟨lo, hi, k, hI, rfl⟩⟩
      exact ⟨⟨ys.flatten.toFinset, true⟩, bind_eq_ok.mpr ⟨ys, hys, rfl⟩⟩

/-- A parsed field has the values it stands for, and is restricted unless it is a lone star. -/
theorem mem_parseField (hF : SpecOf spec F) {p : ParsedField} (h : parseField field spec = .ok p) :
    (p.restricted = true ↔ field ≠ ['*']) ∧ ∀ v, v ∈ p.values ↔ Crontab.Denotes F field v := by
  unfold parseField at h
  by_cases hstar : field = ['*']
  · rw [if_pos hstar] at h
    cases h
    refine ⟨by simp [hstar], fun v => ?_⟩
    rw [hstar, Crontab.denotes_star hF.le, Finset.mem_filter, Finset.mem_range, hF.min, hF.max]
    omega
  · rw [if_neg hstar] at h
    obtain ⟨ys, hm, h⟩ := bind_eq_ok.mp h
    cases h
    obtain ⟨hfrom, hto⟩ := mapM_ok_iff hm
    refine ⟨by simp [hstar], fun v => ?_⟩
    rw [List.mem_toFinset, List.mem_flatten]
    constructor
    · rintro ⟨vs, hvs, hv⟩
      obtain ⟨item, hitem, hok⟩ := hto vs hvs
      obtain ⟨lo, hi, k, hI, rfl⟩ := (expandItem_ok hF).mp hok
      obtain ⟨_, hle, hhi, hk⟩ := hI.le hF.le
      have hsmall := hF.small
      exact ⟨item, hitem, lo, hi, k, hI, (mem_stepValues hk (by omega) 60 lo (by omega) (by omega) v).mp hv⟩
    · rintro ⟨item, hitem, lo, hi, k, hI, hv⟩
      obtain ⟨vs, hvs, hok⟩ := hfrom item hitem
      obtain ⟨lo', hi', k', hI', rfl⟩ := (expandItem_ok hF).mp hok
      obtain ⟨rfl, rfl, rfl⟩ := hI.unique hI'
      obtain ⟨_, hle, hhi, hk⟩ := hI.le hF.le
      have hsmall := hF.small
      exact ⟨_, hvs, (mem_stepValues hk (by omega) 60 lo (by omega) (by omega) v).mpr hv⟩

end Fields

/-! ## Expressions -/

def fieldsOf (expr : String) : Option Crontab.Fields := Crontab.Fields.ofList (splitFields expr)

/-- The parser goes through the five fields in their order. -/
theorem parseCronExpression_of_fields {expr : String} {f : Crontab.Fields} (h : fieldsOf expr = some f) :
    parseCronExpression expr = (do
      let minutes ← parseField f.minute minuteField
      let hours ← parseField f.hour hourField
      let dom ← parseField f.dayOfMonth domField
      let months ← parseField f.month monthField
      let dow ← parseField f.dayOfWeek dowField
      .ok ⟨minutes.values, hours.values, dom.values, months.values, dow.values.image fun v => if v = 7 then 0 else v,
        dom.restricted, dow.restricted⟩) := by
  have hsplit : splitFields expr = [f.minute, f.hour, f.dayOfMonth, f.month, f.dayOfWeek] :=
    Crontab.Fields.ofList_eq_some.mp h
  unfold parseCronExpression
  rw [hsplit]

theorem parseCronExpression_of_none {expr : String} (h : fieldsOf expr = none) : parseCronExpression expr = .error .fieldCount := by
  unfold fieldsOf at h
  unfold parseCronExpression
  generalize splitFields expr = l at *
  rcases l with _ | ⟨a, _ | ⟨b, _ | ⟨c, _ | ⟨d, _ | ⟨e, _ | ⟨g, l⟩⟩⟩⟩⟩⟩
  all_goals first
    | rfl
    | cases h

/-- The fields of an accepted expression, and the schedule that is made of them. -/
structure ParsedAs (f : Crontab.Fields) (s : CronSchedule) : Prop where
  minutes : ∀ v, v ∈ s.minutes ↔ Crontab.Denotes Crontab.minute f.minute v
  hours : ∀ v, v ∈ s.hours ↔ Crontab.Denotes Crontab.hour f.hour v
  dom : ∀ v, v ∈ s.dom ↔ Crontab.Denotes Crontab.dayOfMonth f.dayOfMonth v
  months : ∀ v, v ∈ s.months ↔ Crontab.Denotes Crontab.month f.month v
  dow : ∀ v, v ≤ 6 → (v ∈ s.dow ↔ Crontab.OnWeekday Crontab.Denotes f.dayOfWeek v)
  domRestricted : s.domRestricted = true ↔ f.dayOfMonth ≠ ['*']
  dowRestricted : s.dowRestricted = true ↔ f.dayOfWeek ≠ ['*']

/-- Sunday is 0 in the schedule and 0 or 7 in the field. -/
theorem mem_dow {field : List Char} {p : ParsedField} (h : parseField field dowField = .ok p) {v : Nat} (hv : v ≤ 6) :
    v ∈ p.values.image (fun v => if v = 7 then 0 else v) ↔ Crontab.OnWeekday Crontab.Denotes field v := by
  have hmem := (mem_parseField dow_spec h).2
  unfold Crontab.OnWeekday
  rw [Finset.mem_image, ← hmem, ← hmem]
  constructor
  · rintro ⟨w, hw, he⟩
    by_cases hw7 : w = 7
    · rw [if_pos hw7] at he
      subst hw7
      exact .inr ⟨he.symm, hw⟩
    · rw [if_neg hw7] at he
      subst he
      exact .inl hw
  · rintro (hd | ⟨rfl, hd⟩)
    · exact ⟨v, hd, by rw [if_neg (by omega)]⟩
    · exact ⟨7, hd, rfl⟩

/-- An expression is accepted exactly when it has five fields of the language; its schedule
    has their values. -/
theorem parseCronExpression_ok_iff {expr : String} :
    (∃ s, parseCronExpression expr = .ok s) ↔ ∃ f, fieldsOf expr = some f ∧ f.WellFormed := by
  cases hf : fieldsOf expr with
  | none =>
    rw [parseCronExpression_of_none hf]
    simp
  | some f =>
    rw [parseCronExpression_of_fields hf]
    simp only [Option.some.injEq, exists_eq_left']
    constructor
    · intro ⟨s, h⟩
      obtain ⟨p₁, h₁, h⟩ := bind_eq_ok.mp h
      obtain ⟨p₂, h₂, h⟩ := bind_eq_ok.mp h
      obtain ⟨p₃, h₃, h⟩ := bind_eq_ok.mp h
      obtain ⟨p₄, h₄, h⟩ := bind_eq_ok.mp h
      obtain ⟨p₅, h₅, h⟩ := bind_eq_ok.mp h
      exact ⟨(parseField_ok_iff minute_spec).mp ⟨_, h₁⟩, (parseField_ok_iff hour_spec).mp ⟨_, h₂⟩,
        (parseField_ok_iff dom_spec).mp ⟨_, h₃⟩, (parseField_ok_iff month_spec).mp ⟨_, h₄⟩,
        (parseField_ok_iff dow_spec).mp ⟨_, h₅⟩⟩
    · rintro ⟨w₁, w₂, w₃, w₄, w₅⟩
      obtain ⟨p₁, h₁⟩ := (parseField_ok_iff minute_spec).mpr w₁
      obtain ⟨p₂, h₂⟩ := (parseField_ok_iff hour_spec).mpr w₂
      obtain ⟨p₃, h₃⟩ := (parseField_ok_iff dom_spec).mpr w₃
      obtain ⟨p₄, h₄⟩ := (parseField_ok_iff month_spec).mpr w₄
      obtain ⟨p₅, h₅⟩ := (parseField_ok_iff dow_spec).mpr w₅
      simp only [h₁, h₂, h₃, h₄, h₅, bind, Except.bind]
      exact ⟨_, rfl⟩

theorem parseCronExpression_ok {expr : String} {s : CronSchedule} (h : parseCronExpression expr = .ok s) :
    ∃ f, fieldsOf expr = some f ∧ f.WellFormed ∧ ParsedAs f s := by
  obtain ⟨f, hf, hwf⟩ := parseCronExpression_ok_iff.mp ⟨s, h⟩
  refine ⟨f, hf, hwf, ?_⟩
  rw [parseCronExpression_of_fields hf] at h
  obtain ⟨p₁, h₁, h⟩ := bind_eq_ok.mp h
  obtain ⟨p₂, h₂, h⟩ := bind_eq_ok.mp h
  obtain ⟨p₃, h₃, h⟩ := bind_eq_ok.mp h
  obtain ⟨p₄, h₄, h⟩ := bind_eq_ok.mp h
  obtain ⟨p₅, h₅, h⟩ := bind_eq_ok.mp h
  cases h
  exact ⟨(mem_parseField minute_spec h₁).2, (mem_parseField hour_spec h₂).2, (mem_parseField dom_spec h₃).2,
    (mem_parseField month_spec h₄).2, fun v hv => mem_dow h₅ hv, (mem_parseField dom_spec h₃).1, (mem_parseField dow_spec h₅).1⟩

/-! ## The schedule -/

/-- The rule for the two day fields, over what each of them says. -/
def DayRule (s : CronSchedule) (dom dow : Prop) : Prop :=
  if s.domRestricted = true ∧ s.dowRestricted = true then dom ∨ dow else dom ∧ dow

theorem cronMatchesMinute_iff {s : CronSchedule} {ms : Int} :
    cronMatchesMinute s ms = true ↔
      InTime ms ∧ (ms / minuteMs % 60).toNat ∈ s.minutes ∧ (ms / (60 * minuteMs) % 24).toNat ∈ s.hours ∧
        (Calendar.ofDay (ms / dayMs)).month.toNat ∈ s.months ∧
        DayRule s ((Calendar.ofDay (ms / dayMs)).day.toNat ∈ s.dom) (((ms / dayMs + 4) % 7).toNat ∈ s.dow) := by
  unfold cronMatchesMinute DayRule
  by_cases hin : InTime ms
  · rw [if_pos hin]
    by_cases hrule : s.domRestricted = true ∧ s.dowRestricted = true
    · simp [hin, hrule, and_assoc]
    · have hoff : (s.domRestricted && s.dowRestricted) = false := by
        rw [Bool.eq_false_iff]
        exact fun h => hrule (Bool.and_eq_true_iff.mp h)
      simp [hin, hrule, hoff, and_assoc]
  · rw [if_neg hin]
    exact iff_of_false (by decide) fun h => hin h.1

/-- An accepted schedule matches what the language says. -/
theorem ParsedAs.matches_iff {f : Crontab.Fields} {s : CronSchedule} (h : ParsedAs f s) {ms : Int} :
    cronMatchesMinute s ms = true ↔ InTime ms ∧ f.MatchAt Crontab.Denotes ms := by
  have hrule : DayRule s ((Calendar.ofDay (ms / dayMs)).day.toNat ∈ s.dom) (((ms / dayMs + 4) % 7).toNat ∈ s.dow) ↔
      Crontab.OnDay Crontab.Denotes f (Calendar.ofDay (ms / dayMs)).day.toNat ((ms / dayMs + 4) % 7).toNat := by
    unfold DayRule Crontab.OnDay
    rw [h.dom, h.dow _ (by omega)]
    by_cases hboth : f.dayOfMonth ≠ ['*'] ∧ f.dayOfWeek ≠ ['*']
    · rw [if_pos ⟨h.domRestricted.mpr hboth.1, h.dowRestricted.mpr hboth.2⟩, if_pos hboth]
    · rw [if_neg fun hr => hboth ⟨h.domRestricted.mp hr.1, h.dowRestricted.mp hr.2⟩, if_neg hboth]
  rw [cronMatchesMinute_iff, h.minutes, h.hours, h.months, hrule]
  unfold Crontab.Fields.MatchAt Crontab.Fields.MatchBy
  exact Iff.rfl

end LaunchPad.Cron
