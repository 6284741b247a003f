/-
  LaunchPad.Lib.Calendar — the proleptic Gregorian calendar: the date of an epoch day and
  the epoch day of a date.

  A year is counted from its first of March, so that a leap day ends it; 400 of them make
  an era of 146097 days. `yearOfEra` finds the year of a day of an era by one division,
  which `yearOfEra_spec` justifies.

  Proved:
  - `toDay_ofDay`, `ofDay_toDay`: the two conversions are inverse to each other.
  - `toDay_lt_iff`: dates are in the order of their days.
  - `exists_first`, `exists_weekday`: a date that every year has, and a weekday of a month, at
    some time of the day, are never further ahead than 366 days.
-/
import Mathlib.Order.Monotone.Basic

namespace LaunchPad.Lib.Calendar

structure Date where
  year : Int
  month : Int
  day : Int
  deriving DecidableEq, Repr

def isLeap (y : Int) : Bool := y % 4 == 0 && (y % 100 != 0 || y % 400 == 0)

/-- The days of a month in a year that has no leap day. -/
def commonMonthLength (m : Int) : Int :=
  if m = 2 then 28 else if m = 4 ∨ m = 6 ∨ m = 9 ∨ m = 11 then 30 else 31

def monthLength (y m : Int) : Int := if m = 2 ∧ isLeap y then 29 else commonMonthLength m

def Date.Valid (c : Date) : Prop :=
  1 ≤ c.month ∧ c.month ≤ 12 ∧ 1 ≤ c.day ∧ c.day ≤ monthLength c.year c.month

/-! ## Years from March -/

/-- The days of an era before its year `y`. -/
def eraDays (y : Nat) : Nat := 365 * y + y / 4 - y / 100 + y / 400

def yearOfEra (n : Nat) : Nat := (n - n / 1460 + n / 36524 - n / 146096) / 365

/-- What `yearOfEra` divides. -/
def leapless (n : Nat) : Nat := n - n / 1460 + n / 36524 - n / 146096

theorem leapless_step {n : Nat} (h : n < 146096) : leapless n ≤ leapless (n + 1) := by
  unfold leapless
  omega

theorem leapless_mono {a b : Nat} (h : a ≤ b) (hb : b ≤ 146096) : leapless a ≤ leapless b := by
  induction b, h using Nat.le_induction with
  | base => exact Nat.le_refl _
  | succ b hab ih => exact Nat.le_trans (ih (by omega)) (leapless_step (by omega))

/-- Each year of an era, at its first day and its last. -/
theorem leapless_years : ∀ y < 400, 365 * y ≤ leapless (eraDays y) ∧ leapless (eraDays (y + 1) - 1) < 365 * (y + 1) := by
  decide +kernel

theorem yearOfEra_spec {n : Nat} (h : n < 146097) :
    yearOfEra n < 400 ∧ eraDays (yearOfEra n) ≤ n ∧ n < eraDays (yearOfEra n + 1) := by
  have hdef : yearOfEra n = leapless n / 365 := rfl
  have hend : leapless 146096 < 365 * 400 := by decide
  have hlast := leapless_mono (a := n) (by omega) (Nat.le_refl 146096)
  have hy : yearOfEra n < 400 := by omega
  refine ⟨hy, ?_, ?_⟩
  · by_contra hlow
    -- Before its year begins, a day would still count as one of the year before.
    obtain ⟨y, hyy⟩ : ∃ y, yearOfEra n = y + 1 := ⟨yearOfEra n - 1, by unfold eraDays at hlow; omega⟩
    rw [hyy] at hlow hdef
    have hlen : eraDays (y + 1) ≤ 146097 := by unfold eraDays; omega
    have hmono := leapless_mono (a := n) (b := eraDays (y + 1) - 1) (by omega) (by omega)
    have hyear := (leapless_years y (by omega)).2
    omega
  · by_contra hhigh
    have hlt : yearOfEra n + 1 < 400 := by
      by_contra hge
      have hyy : yearOfEra n = 399 := by omega
      rw [hyy] at hhigh
      exact hhigh h
    have hmono := leapless_mono (a := eraDays (yearOfEra n + 1)) (b := n) (by omega) (by omega)
    have hyear := (leapless_years _ hlt).1
    omega

/-- The days from the first of March of the year 0 to that of the year `y`. -/
def yearStart (y : Int) : Int := 365 * y + y / 4 - y / 100 + y / 400

/-- The year from March that has the `n`-th day from the first of March of the year 0. -/
def marchYear (n : Int) : Int := n / 146097 * 400 + yearOfEra (n % 146097).toNat

theorem yearStart_era (e : Int) (y : Nat) (h : y ≤ 400) : yearStart (e * 400 + y) = e * 146097 + eraDays y := by
  unfold yearStart eraDays
  omega

theorem marchYear_spec (n : Int) : yearStart (marchYear n) ≤ n ∧ n < yearStart (marchYear n + 1) := by
  obtain ⟨k, hk⟩ : ∃ k : Nat, n % 146097 = k := ⟨(n % 146097).toNat, by omega⟩
  have hlt : k < 146097 := by omega
  obtain ⟨hy, hlow, hhigh⟩ := yearOfEra_spec hlt
  have hyear : marchYear n = n / 146097 * 400 + yearOfEra k := by
    unfold marchYear
    rw [hk, Int.toNat_natCast]
  have hstart := yearStart_era (n / 146097) (yearOfEra k) (by omega)
  have hnext := yearStart_era (n / 146097) (yearOfEra k + 1) (by omega)
  rw [Int.natCast_add, Int.natCast_one, ← Int.add_assoc] at hnext
  rw [hyear, hstart, hnext]
  omega

theorem yearStart_succ (y : Int) : yearStart (y + 1) = yearStart y + if isLeap (y + 1) then 366 else 365 := by
  unfold yearStart isLeap
  split
  · rename_i h
    simp only [Bool.and_eq_true, Bool.or_eq_true, beq_iff_eq, bne_iff_ne] at h
    omega
  · rename_i h
    simp only [Bool.and_eq_true, Bool.or_eq_true, beq_iff_eq, bne_iff_ne] at h
    omega

theorem yearStart_le {a b : Int} (h : a ≤ b) : yearStart a ≤ yearStart b := by
  obtain ⟨k, rfl⟩ : ∃ k : Nat, b = a + k := ⟨(b - a).toNat, by omega⟩
  induction k with
  | zero => simp
  | succ k ih =>
    have := ih (by omega)
    have hstep := yearStart_succ (a + k)
    rw [show a + ((k + 1 : Nat) : Int) = a + k + 1 by omega]
    split at hstep <;> omega

theorem lt_of_yearStart {a b : Int} (h : yearStart a < yearStart b) : a < b := by
  by_contra hle
  have := yearStart_le (Int.not_lt.mp hle)
  omega

theorem marchYear_unique {n y : Int} (hlow : yearStart y ≤ n) (hhigh : n < yearStart (y + 1)) : marchYear n = y := by
  obtain ⟨h₁, h₂⟩ := marchYear_spec n
  have hle : marchYear n < y + 1 := lt_of_yearStart (Int.lt_of_le_of_lt h₁ hhigh)
  have hge : y < marchYear n + 1 := lt_of_yearStart (Int.lt_of_le_of_lt hlow h₂)
  omega

/-! ## Days and dates -/

/-- From the first of March of the year 0 to the epoch. -/
def epochOffset : Int := 719468

/-- Counted from March. -/
def marchMonth (doy : Int) : Int := (5 * doy + 2) / 153

/-- The date of a day of the year from March. -/
def dateOf (y doy : Int) : Date :=
  let mp := marchMonth doy
  let m := if mp < 10 then mp + 3 else mp - 9
  ⟨if m ≤ 2 then y + 1 else y, m, doy - (153 * mp + 2) / 5 + 1⟩

def ofDay (d : Int) : Date :=
  let n := d + epochOffset
  let y := marchYear n
  dateOf y (n - yearStart y)

def toDay (c : Date) : Int :=
  if c.month ≤ 2 then yearStart (c.year - 1) + (153 * (c.month + 9) + 2) / 5 + c.day - 1 - epochOffset
  else yearStart c.year + (153 * (c.month - 3) + 2) / 5 + c.day - 1 - epochOffset

/-- The days of a year from March, whose leap day is its last. -/
def InYear (y doy : Int) : Prop := 0 ≤ doy ∧ doy < if isLeap (y + 1) then 366 else 365

theorem InYear.marchMonth_lt {y doy : Int} (h : InYear y doy) : 0 ≤ marchMonth doy ∧ marchMonth doy < 12 := by
  obtain ⟨h0, h1⟩ := h
  unfold marchMonth
  split at h1 <;> omega

theorem inYear_ofDay (d : Int) : InYear (marchYear (d + epochOffset)) (d + epochOffset - yearStart (marchYear (d + epochOffset))) := by
  obtain ⟨hlow, hhigh⟩ := marchYear_spec (d + epochOffset)
  rw [yearStart_succ] at hhigh
  exact ⟨by omega, by omega⟩

theorem toDay_dateOf {y doy : Int} (h : InYear y doy) : toDay (dateOf y doy) = yearStart y + doy - epochOffset := by
  obtain ⟨h0, h12⟩ := h.marchMonth_lt
  unfold toDay dateOf
  simp only
  by_cases hmp : marchMonth doy < 10
  · simp only [hmp, if_true]
    rw [if_neg (by omega), if_neg (by omega)]
    unfold marchMonth
    omega
  · simp only [hmp, if_false]
    rw [if_pos (by omega), if_pos (by omega), Int.add_sub_cancel]
    unfold marchMonth
    omega

theorem dateOf_valid {y doy : Int} (h : InYear y doy) : (dateOf y doy).Valid := by
  obtain ⟨h0, h12⟩ := h.marchMonth_lt
  obtain ⟨hd0, hd1⟩ := h
  unfold Date.Valid dateOf monthLength commonMonthLength
  have hmonth : marchMonth doy = 0 ∨ marchMonth doy = 1 ∨ marchMonth doy = 2 ∨ marchMonth doy = 3 ∨ marchMonth doy = 4 ∨
      marchMonth doy = 5 ∨ marchMonth doy = 6 ∨ marchMonth doy = 7 ∨ marchMonth doy = 8 ∨ marchMonth doy = 9 ∨
      marchMonth doy = 10 ∨ marchMonth doy = 11 := by omega
  by_cases hleap : isLeap (y + 1) = true
  · rw [if_pos hleap] at hd1
    rcases hmonth with hm | hm | hm | hm | hm | hm | hm | hm | hm | hm | hm | hm
    all_goals
      simp [hm, hleap]
      unfold marchMonth at hm
      omega
  · rw [if_neg hleap] at hd1
    rcases hmonth with hm | hm | hm | hm | hm | hm | hm | hm | hm | hm | hm | hm
    all_goals
      simp [hm, hleap]
      unfold marchMonth at hm
      omega

theorem toDay_ofDay (d : Int) : toDay (ofDay d) = d := by
  have h := toDay_dateOf (inYear_ofDay d)
  have hof : ofDay d = dateOf (marchYear (d + epochOffset)) (d + epochOffset - yearStart (marchYear (d + epochOffset))) := rfl
  rw [hof, h]
  omega

theorem ofDay_valid (d : Int) : (ofDay d).Valid := dateOf_valid (inYear_ofDay d)

/-- The day of a date's year from March. -/
def marchDay (c : Date) : Int :=
  if c.month ≤ 2 then (153 * (c.month + 9) + 2) / 5 + c.day - 1 else (153 * (c.month - 3) + 2) / 5 + c.day - 1

theorem monthLength_le (y m : Int) : monthLength y m ≤ (if m = 2 then 29 else commonMonthLength m) := by
  unfold monthLength commonMonthLength
  by_cases hm : m = 2
  · simp only [hm, true_and, if_true]
    split <;> omega
  · simp [hm]

theorem commonMonthLength_le (y m : Int) : commonMonthLength m ≤ monthLength y m := by
  unfold monthLength
  split
  · rename_i h
    rw [h.1]
    decide
  · exact Int.le_refl _

/-- A date's month and day, back from its day of the year. -/
theorem marchDay_spec {c : Date} (h : c.Valid) :
    0 ≤ marchDay c ∧ marchMonth (marchDay c) = (if c.month ≤ 2 then c.month + 9 else c.month - 3) ∧
      marchDay c - (153 * marchMonth (marchDay c) + 2) / 5 + 1 = c.day := by
  obtain ⟨y, m, d⟩ := c
  obtain ⟨hm1, hm12, hd1, hd⟩ := h
  simp only at hm1 hm12 hd1 hd
  have hlen := monthLength_le y m
  have hmonth : m = 1 ∨ m = 2 ∨ m = 3 ∨ m = 4 ∨ m = 5 ∨ m = 6 ∨ m = 7 ∨ m = 8 ∨ m = 9 ∨ m = 10 ∨ m = 11 ∨ m = 12 := by
    omega
  unfold marchDay marchMonth
  rcases hmonth with rfl | rfl | rfl | rfl | rfl | rfl | rfl | rfl | rfl | rfl | rfl | rfl
  all_goals
    simp [commonMonthLength] at hlen ⊢
    omega

theorem Date.Valid.inYear {c : Date} (h : c.Valid) : InYear (if c.month ≤ 2 then c.year - 1 else c.year) (marchDay c) := by
  refine ⟨(marchDay_spec h).1, ?_⟩
  obtain ⟨y, m, d⟩ := c
  obtain ⟨hm1, hm12, hd1, hd⟩ := h
  simp only at hm1 hm12 hd1 hd
  by_cases hm : m ≤ 2
  · -- January and February end the year from March; a leap day is its last.
    have hlen : monthLength y 2 = if isLeap y then 29 else 28 := by simp [monthLength, commonMonthLength]
    have hjan : monthLength y 1 = 31 := by simp [monthLength, commonMonthLength]
    simp only [marchDay, hm, if_true, Int.sub_add_cancel]
    have : m = 1 ∨ m = 2 := by omega
    rcases this with rfl | rfl
    · rw [hjan] at hd
      split <;> omega
    · rw [hlen] at hd
      split at hd <;> simp_all <;> omega
  · have hlen := monthLength_le y m
    rw [if_neg (by omega)] at hlen
    have hmax : commonMonthLength m ≤ 31 := by unfold commonMonthLength; split <;> omega
    simp only [marchDay, hm, if_false]
    split <;> omega

theorem dateOf_marchDay {c : Date} (h : c.Valid) :
    dateOf (if c.month ≤ 2 then c.year - 1 else c.year) (marchDay c) = c := by
  obtain ⟨_, hmp, hday⟩ := marchDay_spec h
  unfold dateOf
  simp only
  rw [hday, hmp]
  obtain ⟨y, m, d⟩ := c
  obtain ⟨hm1, hm12, _, _⟩ := h
  simp only at hm1 hm12 ⊢
  by_cases hm : m ≤ 2
  · simp only [hm, if_true, show ¬ m + 9 < 10 by omega, if_false, Int.add_sub_cancel, Int.sub_add_cancel]
  · simp only [hm, if_false, show m - 3 < 10 by omega, if_true, Int.sub_add_cancel]

theorem toDay_eq (c : Date) :
    toDay c = yearStart (if c.month ≤ 2 then c.year - 1 else c.year) + marchDay c - epochOffset := by
  unfold toDay marchDay
  split <;> omega

theorem ofDay_toDay {c : Date} (h : c.Valid) : ofDay (toDay c) = c := by
  obtain ⟨h0, h1⟩ := h.inYear
  have hyear : marchYear (toDay c + epochOffset) = if c.month ≤ 2 then c.year - 1 else c.year := by
    refine marchYear_unique ?_ ?_
    · rw [toDay_eq]
      omega
    · rw [yearStart_succ, toDay_eq]
      omega
  have hday : toDay c + epochOffset - yearStart (if c.month ≤ 2 then c.year - 1 else c.year) = marchDay c := by
    rw [toDay_eq]
    omega
  unfold ofDay
  simp only
  rw [hyear, hday, dateOf_marchDay h]

/-! ## The order of dates -/

/-- The first of January. -/
def newYear (y : Int) : Int := yearStart (y - 1) + 306 - epochOffset

theorem newYear_mono {a b : Int} (h : a ≤ b) : newYear a ≤ newYear b := by
  have := yearStart_le (show a - 1 ≤ b - 1 by omega)
  unfold newYear
  omega

theorem newYear_bounds {c : Date} (h : c.Valid) : newYear c.year ≤ toDay c ∧ toDay c < newYear (c.year + 1) := by
  have hin := h.inYear
  have hmp := (marchDay_spec h).2.1
  have hstep := yearStart_succ (c.year - 1)
  rw [Int.sub_add_cancel] at hstep
  obtain ⟨hm1, _, hd1, _⟩ := h
  rw [toDay_eq]
  unfold newYear
  rw [Int.add_sub_cancel]
  by_cases hm : c.month ≤ 2
  · simp only [hm, if_true, InYear, Int.sub_add_cancel] at hin ⊢
    have hlow : 306 ≤ marchDay c := by
      unfold marchDay
      rw [if_pos hm]
      omega
    split at hstep <;> split at hin <;> omega
  · simp only [hm, if_false, InYear] at hin ⊢
    have hhigh : marchDay c < 306 := by
      by_contra hge
      unfold marchMonth at hmp
      rw [if_neg hm] at hmp
      omega
    split at hstep <;> omega

/-- Earlier in the calendar. -/
def Date.Before (a b : Date) : Prop :=
  a.year < b.year ∨ (a.year = b.year ∧ (a.month < b.month ∨ (a.month = b.month ∧ a.day < b.day)))

theorem Date.Before.toDay_lt {a b : Date} (h : a.Before b) (ha : a.Valid) (hb : b.Valid) : toDay a < toDay b := by
  rcases h with hy | ⟨hy, h⟩
  · have h1 := (newYear_bounds ha).2
    have h2 := (newYear_bounds hb).1
    have h3 := newYear_mono (show a.year + 1 ≤ b.year by omega)
    omega
  · obtain ⟨_, hmonth, hday⟩ := marchDay_spec ha
    obtain ⟨_, hmonth', hday'⟩ := marchDay_spec hb
    have hin := ha.inYear
    have hin' := hb.inYear
    have hstep := yearStart_succ (a.year - 1)
    rw [Int.sub_add_cancel] at hstep
    rw [toDay_eq, toDay_eq, ← hy]
    rw [← hy] at hin'
    unfold InYear at hin hin'
    unfold marchMonth at hmonth hmonth' hday hday'
    by_cases hm : a.month ≤ 2
    · by_cases hm' : b.month ≤ 2
      · simp only [hm, hm', if_true] at hmonth hmonth' ⊢
        omega
      · -- The one is at the end of a year from March, the other in the next.
        simp only [hm, hm', if_true, if_false, Int.sub_add_cancel] at hin hin' hstep ⊢
        omega
    · have hm' : ¬ b.month ≤ 2 := by omega
      simp only [hm, hm', if_false] at hmonth hmonth' ⊢
      omega

theorem toDay_lt_iff {a b : Date} (ha : a.Valid) (hb : b.Valid) : toDay a < toDay b ↔ a.Before b := by
  constructor
  · intro h
    by_contra hnot
    have hcases : b.Before a ∨ (a.year = b.year ∧ a.month = b.month ∧ a.day = b.day) := by
      unfold Date.Before at hnot ⊢
      omega
    rcases hcases with hba | ⟨hy, hm, hd⟩
    · have := hba.toDay_lt hb ha
      omega
    · obtain rfl : a = b := by
        cases a
        cases b
        simp only at hy hm hd
        rw [hy, hm, hd]
      omega
  · exact fun h => h.toDay_lt ha hb

/-! ## How far ahead a date is -/

/-- The same date a year later. -/
theorem toDay_nextYear (y m d : Int) :
    toDay ⟨y, m, d⟩ + 365 ≤ toDay ⟨y + 1, m, d⟩ ∧ toDay ⟨y + 1, m, d⟩ ≤ toDay ⟨y, m, d⟩ + 366 := by
  have h1 := yearStart_succ (y - 1)
  have h2 := yearStart_succ y
  rw [Int.sub_add_cancel] at h1
  unfold toDay
  simp only [Int.add_sub_cancel]
  split
  · split at h1 <;> omega
  · split at h2 <;> omega

theorem toDay_add (y m d i : Int) : toDay ⟨y, m, d + i⟩ = toDay ⟨y, m, d⟩ + i := by
  unfold toDay
  simp only
  split <;> omega

/-- A date that every year has, at some time of the day, is at most 366 days ahead. -/
theorem exists_first {m d : Int} (hm1 : 1 ≤ m) (hm12 : m ≤ 12) (hd1 : 1 ≤ d) (hd : d ≤ commonMonthLength m) {unit k : Int}
    (hk0 : 0 ≤ k) (hk : k < unit) (t : Int) :
    ∃ y, t < toDay ⟨y, m, d⟩ * unit + k ∧ toDay ⟨y, m, d⟩ * unit + k ≤ t + 366 * unit := by
  have hvalid : ∀ y, (⟨y, m, d⟩ : Date).Valid := by
    intro y
    exact ⟨hm1, hm12, hd1, Int.le_trans hd (commonMonthLength_le y m)⟩
  have hscale : ∀ y, toDay ⟨y + 1, m, d⟩ * unit ≤ toDay ⟨y, m, d⟩ * unit + 366 * unit := by
    intro y
    rw [← Int.add_mul]
    exact Int.mul_le_mul_of_nonneg_right (toDay_nextYear y m d).2 (by omega)
  -- The years around the one that `t` lies in.
  obtain ⟨y, hy⟩ : ∃ y, y = (ofDay (t / unit)).year := ⟨_, rfl⟩
  obtain ⟨hlow, hhigh⟩ := newYear_bounds (ofDay_valid (t / unit))
  rw [toDay_ofDay, ← hy] at hlow hhigh
  have hprev := (newYear_bounds (hvalid (y - 1))).2
  have hnext := (newYear_bounds (hvalid (y + 1))).1
  simp only [Int.sub_add_cancel] at hprev hnext
  have hdiv := Int.mul_ediv_add_emod t unit
  have hmod := Int.emod_nonneg t (show unit ≠ 0 by omega)
  have hmod' := Int.emod_lt_of_pos t (show 0 < unit by omega)
  have hbefore : toDay ⟨y - 1, m, d⟩ * unit + unit ≤ t / unit * unit := by
    have h : toDay ⟨y - 1, m, d⟩ + 1 ≤ t / unit := by omega
    have := Int.mul_le_mul_of_nonneg_right h (show 0 ≤ unit by omega)
    rwa [Int.add_mul, Int.one_mul] at this
  have hafter : t / unit * unit + unit ≤ toDay ⟨y + 1, m, d⟩ * unit := by
    have h : t / unit + 1 ≤ toDay ⟨y + 1, m, d⟩ := by omega
    have := Int.mul_le_mul_of_nonneg_right h (show 0 ≤ unit by omega)
    rwa [Int.add_mul, Int.one_mul] at this
  rw [Int.mul_comm] at hdiv
  by_cases hthis : t < toDay ⟨y, m, d⟩ * unit + k
  · have := hscale (y - 1)
    rw [Int.sub_add_cancel] at this
    exact ⟨y, hthis, by omega⟩
  · have := hscale y
    exact ⟨y + 1, by omega, by omega⟩

/-- So is some date of a month with a given weekday, counted from Sunday. -/
theorem exists_weekday {m w : Int} (hm1 : 1 ≤ m) (hm12 : m ≤ 12) (hw0 : 0 ≤ w) (hw6 : w ≤ 6) {unit k : Int} (hk0 : 0 ≤ k)
    (hk : k < unit) (t : Int) :
    ∃ c : Date, c.Valid ∧ c.month = m ∧ (toDay c + 4) % 7 = w ∧ t < toDay c * unit + k ∧
      toDay c * unit + k ≤ t + 366 * unit := by
  have hlen : 28 ≤ commonMonthLength m := by
    unfold commonMonthLength
    split <;> [omega; (split <;> omega)]
  have hvalid : ∀ y i : Int, 0 ≤ i → i < 28 → (⟨y, m, 1 + i⟩ : Date).Valid := by
    intro y i hi0 hi
    have := commonMonthLength_le y m
    exact ⟨hm1, hm12, by simp only; omega, by simp only; omega⟩
  -- The first day of the month with that weekday, of a year whose month starts in the window.
  obtain ⟨y, hlow, hhigh⟩ := exists_first (d := 1) hm1 hm12 (by omega) (by omega) hk0 hk t
  obtain ⟨hyear, hyear'⟩ := toDay_nextYear (y - 1) m 1
  rw [Int.sub_add_cancel] at hyear hyear'
  generalize hF : toDay ⟨y, m, 1⟩ = F at *
  generalize hG : toDay ⟨y - 1, m, 1⟩ = G at *
  by_cases hfits : (F + (w - (F + 4)) % 7) * unit + k ≤ t + 366 * unit
  · refine ⟨⟨y, m, 1 + (w - (F + 4)) % 7⟩, hvalid y _ (by omega) (by omega), rfl, ?_, ?_, ?_⟩
    · rw [toDay_add, hF]
      omega
    · rw [toDay_add, hF, Int.add_mul]
      have : 0 ≤ (w - (F + 4)) % 7 * unit := Int.mul_nonneg (by omega) (by omega)
      omega
    · rw [toDay_add, hF]
      exact hfits
  · -- Else one of the second week, a year before.
    have hlast : (F + (w - (F + 4)) % 7) * unit ≤ (G + 372) * unit := Int.mul_le_mul_of_nonneg_right (by omega) (by omega)
    have hweek : (G + 7) * unit ≤ (G + ((w - (G + 4)) % 7 + 7)) * unit := Int.mul_le_mul_of_nonneg_right (by omega) (by omega)
    have hend : (G + ((w - (G + 4)) % 7 + 7)) * unit ≤ F * unit := Int.mul_le_mul_of_nonneg_right (by omega) (by omega)
    rw [Int.add_mul G] at hlast hweek
    refine ⟨⟨y - 1, m, 1 + ((w - (G + 4)) % 7 + 7)⟩, hvalid _ _ (by omega) (by omega), rfl, ?_, ?_, ?_⟩
    · rw [toDay_add, hG]
      omega
    · rw [toDay_add, hG]
      omega
    · rw [toDay_add, hG]
      omega

end LaunchPad.Lib.Calendar
