/-
  LaunchPad.Agent.CronFire — what the agent's two searches for a fire find
  (`agent-rust/src/cron.rs`: `next_cron_fire`, `due_cron_fire`).

  A fire is a whole minute that the schedule matches. The next one is looked for over the
  366 days of minutes after an instant. The due one is looked for from now down, above both
  the last fire and the instant 366 days ago, so a fire of exactly that age is not due.

  As built:
  - `due_skips_horizon`: a fire as old as the horizon is not found.

  Proved, of every schedule and at all instants:
  - `due_search_exact`: both searches find the end of their window, or nothing when no fire
    lies in it; and something is due exactly when the next fire after the window's start is
    not after now.
-/
import LaunchPad.Agent.Cron
import LaunchPad.Lib.Scan
import Mathlib.Data.List.Sort

namespace LaunchPad.Agent

open Lib

/-- A whole minute that the schedule matches. -/
def Fires (s : CronSchedule) (t : Int) : Prop := minuteMs ∣ t ∧ cronMatchesMinute s t = true

/-- The scan horizon in milliseconds. -/
def horizonMs : Int := scanHorizonMinutes * minuteMs

/-! ## Matching -/

/-- The day of an instant, and that chrono's calendar has it. -/
def dayOf (ms : Int) : Int := ms / dayMs

def InCalendar (ms : Int) : Prop := chronoFirstDay ≤ dayOf ms ∧ dayOf ms ≤ chronoLastDay

/-- The rule for the two day fields, over what each of them says. -/
def DayRule (s : CronSchedule) (dom dow : Prop) : Prop :=
  if s.domRestricted = true ∧ s.dowRestricted = true then dom ∨ dow else dom ∧ dow

theorem cronMatchesMinute_iff {s : CronSchedule} {ms : Int} :
    cronMatchesMinute s ms = true ↔
      InCalendar ms ∧ ms / minuteMs % 60 ∈ s.minutes ∧ ms / (60 * minuteMs) % 24 ∈ s.hours ∧
        (civilOfDay (dayOf ms)).1 ∈ s.months ∧
        DayRule s ((civilOfDay (dayOf ms)).2 ∈ s.dom) ((dayOf ms + 4) % 7 ∈ s.dow) := by
  unfold cronMatchesMinute InCalendar DayRule dayOf
  simp only
  by_cases hday : (decide (ms / dayMs < chronoFirstDay) || decide (ms / dayMs > chronoLastDay)) = true
  · rw [if_pos hday]
    simp only [Bool.or_eq_true, decide_eq_true_eq] at hday
    refine iff_of_false (by decide) ?_
    rintro ⟨⟨h1, h2⟩, _⟩
    omega
  · rw [if_neg hday]
    simp only [Bool.or_eq_true, decide_eq_true_eq] at hday
    have hin : chronoFirstDay ≤ ms / dayMs ∧ ms / dayMs ≤ chronoLastDay := by omega
    by_cases hrule : s.domRestricted = true ∧ s.dowRestricted = true
    · simp [hin, hrule, and_assoc]
    · have hoff : (s.domRestricted && s.dowRestricted) = false := by
        rw [Bool.eq_false_iff]
        exact fun h => hrule (Bool.and_eq_true_iff.mp h)
      simp [hin, hrule, hoff, and_assoc]

/-! ## The searches are scans -/

theorem nextFrom_eq (s : CronSchedule) (n : Nat) (t : Int) : nextFrom s n t = Scan.up (cronMatchesMinute s) minuteMs n t := by
  induction n generalizing t with
  | zero => rfl
  | succ n ih => simp only [nextFrom, Scan.up, ih]

theorem dueFrom_eq (s : CronSchedule) (floor : Int) (n : Nat) (t : Int) :
    dueFrom s floor n t = Scan.down (cronMatchesMinute s) minuteMs floor n t := by
  induction n generalizing t with
  | zero => rfl
  | succ n ih => simp only [dueFrom, Scan.down, ih]

theorem minuteMs_pos : 0 < minuteMs := by decide

/-! ## What they find -/

section Search

variable {s : CronSchedule} {last now after t : Int}

/-- The fires after the last one and not after now, younger than the horizon. -/
def dueWindow (s : CronSchedule) (last now : Int) : Set Int :=
  {t | Fires s t ∧ last < t ∧ t ≤ now ∧ now - horizonMs < t}

/-- The fires after an instant, up to the horizon. -/
def nextWindow (s : CronSchedule) (after : Int) : Set Int := {t | Fires s t ∧ after < t ∧ t ≤ after + horizonMs}

theorem dueWindow_eq :
    dueWindow s last now = Scan.hits (cronMatchesMinute s) minuteMs (max last (now - scanHorizonMinutes * minuteMs)) now := by
  ext u
  unfold dueWindow Fires horizonMs Scan.hits
  simp only [Set.mem_ofPred_eq, max_lt_iff, and_assoc]
  constructor
  · rintro ⟨hd, hp, h1, h2, h3⟩
    exact ⟨hd, hp, h1, h3, h2⟩
  · rintro ⟨hd, hp, h1, h3, h2⟩
    exact ⟨hd, hp, h1, h2, h3⟩

theorem nextWindow_eq :
    nextWindow s after = Scan.hits (cronMatchesMinute s) minuteMs after (after + (scanHorizonMinutes : Int) * minuteMs) := by
  ext u
  unfold nextWindow Fires horizonMs Scan.hits
  simp only [Set.mem_ofPred_eq, and_assoc]

/-- The horizon bounds the minutes above the floor. -/
theorem due_fuel : now ≤ max last (now - scanHorizonMinutes * minuteMs) + (scanHorizonMinutes : Int) * minuteMs := by
  omega

theorem due_eq_some : dueCronFire s last now = some t ↔ IsGreatest (dueWindow s last now) t := by
  unfold dueCronFire
  rw [dueFrom_eq, dueWindow_eq]
  exact Scan.down_eq_some minuteMs_pos due_fuel

theorem due_eq_none : dueCronFire s last now = none ↔ dueWindow s last now = ∅ := by
  unfold dueCronFire
  rw [dueFrom_eq, dueWindow_eq]
  exact Scan.down_eq_none minuteMs_pos due_fuel

theorem next_eq_some : nextCronFire s after = some t ↔ IsLeast (nextWindow s after) t := by
  unfold nextCronFire
  rw [nextFrom_eq, nextWindow_eq]
  exact Scan.up_eq_some minuteMs_pos

theorem next_eq_none : nextCronFire s after = none ↔ nextWindow s after = ∅ := by
  unfold nextCronFire
  rw [nextFrom_eq, nextWindow_eq]
  exact Scan.up_eq_none minuteMs_pos

/-- Something is due exactly when the window's first fire is not after now. -/
theorem due_isSome_iff :
    (dueCronFire s last now).isSome = true ↔ ∃ t, nextCronFire s (max last (now - horizonMs)) = some t ∧ t ≤ now := by
  constructor
  · intro h
    obtain ⟨u, hu⟩ := Option.isSome_iff_exists.mp h
    obtain ⟨⟨hf, hlast, hle, hold⟩, _⟩ := due_eq_some.mp hu
    have hmem : u ∈ nextWindow s (max last (now - horizonMs)) := ⟨hf, by omega, by omega⟩
    cases hn : nextCronFire s (max last (now - horizonMs)) with
    | none =>
      rw [next_eq_none.mp hn] at hmem
      cases hmem
    | some t => exact ⟨t, rfl, Int.le_trans ((next_eq_some.mp hn).2 hmem) hle⟩
  · rintro ⟨t, ht, hle⟩
    obtain ⟨⟨hf, hgt, _⟩, _⟩ := next_eq_some.mp ht
    have hmem : t ∈ dueWindow s last now := ⟨hf, by omega, hle, by omega⟩
    cases hd : dueCronFire s last now with
    | none =>
      rw [due_eq_none.mp hd] at hmem
      cases hmem
    | some u => rfl

end Search

/-- Both searches are exact over their windows, and agree on whether something is due. -/
theorem due_search_exact (s : CronSchedule) (last now : Int) :
    (∀ t, dueCronFire s last now = some t ↔ IsGreatest (dueWindow s last now) t) ∧
      (dueCronFire s last now = none ↔ dueWindow s last now = ∅) ∧
      (∀ after t, nextCronFire s after = some t ↔ IsLeast (nextWindow s after) t) ∧
      (∀ after, nextCronFire s after = none ↔ nextWindow s after = ∅) ∧
      ((dueCronFire s last now).isSome = true ↔
        ∃ t, nextCronFire s (max last (now - horizonMs)) = some t ∧ t ≤ now) :=
  ⟨fun _ => due_eq_some, due_eq_none, fun _ _ => next_eq_some, fun _ => next_eq_none, due_isSome_iff⟩

/-! ## At the horizon -/

/-- Midnight of every 29 February. -/
def leapDays : CronSchedule :=
  { minutes := [0], hours := [0], dom := [29], months := [2], dow := [0, 1, 2, 3, 4, 5, 6], domRestricted := true
    dowRestricted := false }

/-- A set of values is the ascending list of them. -/
theorem valueSet_eq {values l : List Int} (hperm : values.dedup.Perm l) (hl : l.Pairwise (· ≤ ·)) : valueSet values = l :=
  ((List.mergeSort_perm _ _).trans hperm).eq_of_pairwise' (List.pairwise_mergeSort' (· ≤ ·) _) hl

theorem leapDays_parsed : parseCronExpression "0 0 29 2 *" = .ok leapDays := by
  have hfields : splitWhitespace "0 0 29 2 *" = [['0'], ['0'], ['2', '9'], ['2'], ['*']] := rfl
  have h₁ : parseField ['0'] minuteField = .ok ⟨valueSet [0], true⟩ := rfl
  have h₂ : parseField ['0'] hourField = .ok ⟨valueSet [0], true⟩ := rfl
  have h₃ : parseField ['2', '9'] domField = .ok ⟨valueSet [29], true⟩ := rfl
  have h₄ : parseField ['2'] monthField = .ok ⟨valueSet [2], true⟩ := rfl
  have h₅ : parseField ['*'] dowField = .ok ⟨[0, 1, 2, 3, 4, 5, 6, 7], false⟩ := rfl
  have hdow : ([0, 1, 2, 3, 4, 5, 6, 7] : List Int).map (fun v => if v = 7 then 0 else v) = [0, 1, 2, 3, 4, 5, 6, 0] := rfl
  have hmidnight : valueSet [0] = [0] := valueSet_eq (by decide) (by decide)
  have hday : valueSet [29] = [29] := valueSet_eq (by decide) (by decide)
  have hmonth : valueSet [2] = [2] := valueSet_eq (by decide) (by decide)
  have hweek : valueSet [0, 1, 2, 3, 4, 5, 6, 0] = [0, 1, 2, 3, 4, 5, 6] := valueSet_eq (by decide) (by decide)
  unfold parseCronExpression
  rw [hfields]
  simp only [h₁, h₂, h₃, h₄, h₅, hmidnight, hday, hmonth, bind, Except.bind]
  rw [hdow, hweek]
  rfl

/-- 2024-02-29 and the midnight 366 days later. -/
def leapDay2024 : Int := 1709164800000
def marchFirst2025 : Int := 1740787200000

theorem no_leap_day_until : ∀ k : Nat, k < 366 → civilOfDay (19783 + (k : Int)) ≠ (2, 29) := by
  decide +kernel

/-- Between them there is no fire. -/
theorem leapDays_silent {t : Int} (h : Fires leapDays t) (hlt : leapDay2024 < t) (hle : t ≤ marchFirst2025) : False := by
  obtain ⟨hd, hm⟩ := h
  have hday2024 : leapDay2024 = 1709164800000 := rfl
  have hnow : marchFirst2025 = 1740787200000 := rfl
  obtain ⟨_, hmin, hhour, hmonth, hday⟩ := cronMatchesMinute_iff.mp hm
  have hdom : (civilOfDay (dayOf t)).2 ∈ [(29 : Int)] := by
    unfold DayRule at hday
    rw [if_neg (by decide)] at hday
    exact hday.1
  simp only [leapDays, List.mem_singleton, minuteMs] at hmin hhour hmonth hdom
  obtain ⟨q, hq⟩ := hd
  simp only [minuteMs] at hq
  -- A midnight after the leap day and not after the first of March of the year after.
  obtain ⟨k, hk⟩ : ∃ k : Nat, dayOf t = 19783 + (k : Int) := by
    unfold dayOf dayMs
    exact ⟨(t / 86400000 - 19783).toNat, by omega⟩
  refine no_leap_day_until k (by unfold dayOf dayMs at hk; omega) ?_
  rw [hk] at hmonth hdom
  exact Prod.ext hmonth hdom

/-- A fire exactly as old as the horizon is not due, though none follows it. -/
theorem due_skips_horizon :
    parseCronExpression "0 0 29 2 *" = .ok leapDays ∧ Fires leapDays leapDay2024 ∧ leapDay2024 - 1 < leapDay2024 ∧ leapDay2024 ≤ marchFirst2025 ∧
      marchFirst2025 - horizonMs ≤ leapDay2024 ∧ dueCronFire leapDays (leapDay2024 - 1) marchFirst2025 = none := by
  refine ⟨leapDays_parsed, ⟨by decide, by decide +kernel⟩, by decide, by decide, by decide, due_eq_none.mpr ?_⟩
  rw [Set.eq_empty_iff_forall_notMem]
  rintro t ⟨hfires, _, hle, hold⟩
  exact leapDays_silent hfires hold hle

end LaunchPad.Agent
