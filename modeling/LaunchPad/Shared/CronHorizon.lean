/-
  LaunchPad.Shared.CronHorizon — what the schema's check that a schedule fires is worth
  (`shared/src/config.ts` over `nextCronFire` of `shared/src/cron.ts`).

  The next fire is looked for over 366 days. A month and day that every year has, and a
  weekday of a month, are never further ahead. The 29th of February is, between leap years,
  and then a schedule of leap days only is taken for one that never fires.

  As built:
  - `leap_day_rejected`: `0 0 29 2 *` is rejected in March 2025.

  Proved, of every expression and at every instant:
  - `validation_exact_iff`: nothing found means no later fire, and the check rejects exactly
    the schedules without a fire, unless the schedule is of leap days only and none is within
    366 days, or the end of a `Date`'s range cuts the fires off.
-/
import LaunchPad.Shared.Cron

namespace LaunchPad.Cron

open Lib Calendar

/-- A whole minute that the schedule matches. -/
def Fires (s : CronSchedule) (t : Int) : Prop := minuteMs ∣ t ∧ cronMatchesMinute s t = true

/-- The scan horizon in milliseconds. -/
def horizonMs : Int := scanHorizonMinutes * minuteMs

abbrev Instant := { ms : Int // InTime ms }

/-! ## Kinds of schedules -/

/-- Some day of the schedule comes every year. -/
def EveryYear (s : CronSchedule) : Prop :=
  s.dowRestricted = true ∨ ∃ m ∈ s.months, ∃ d ∈ s.dom, (d : Int) ≤ commonMonthLength m

/-- Only leap days do. -/
def LeapOnly (s : CronSchedule) : Prop := ¬ EveryYear s ∧ 2 ∈ s.months ∧ 29 ∈ s.dom

/-- No month has one of the schedule's days. -/
def NoDate (s : CronSchedule) : Prop :=
  s.dowRestricted = false ∧ ∀ m ∈ s.months, ∀ d ∈ s.dom, (if m = 2 then 29 else commonMonthLength m) < (d : Int)

/-- A time of a leap day. -/
def leapFire (y : Int) (h mi : Nat) : Int := toDay ⟨y, 2, 29⟩ * dayMs + (h * 3600000 + mi * 60000)

/-- The schedule is about no date, or about days that come every year and the next year is
    in a `Date`'s range (or a fire still is), or a leap day's fire is within the horizon. -/
def Covered (s : CronSchedule) (now : Int) : Prop :=
  NoDate s ∨ (¬ LeapOnly s ∧ (now + horizonMs ≤ maxTime ∨ ∃ t, now < t ∧ Fires s t)) ∨
    ∃ y, isLeap y = true ∧ ∃ h ∈ s.hours, ∃ mi ∈ s.minutes, now < leapFire y h mi ∧ leapFire y h mi ≤ now + horizonMs ∧
      leapFire y h mi ≤ maxTime ∧ LeapOnly s

/-- What the check is meant to do. -/
structure ValidationExact (printed : Option Nat → String) (expr : String) (now : Int) : Prop where
  null : ∀ s, parseCronExpression expr = .ok s → nextCronFire s now = none → ∀ t, now < t → ¬ Fires s t
  rejects : ∀ s, parseCronExpression expr = .ok s →
    (cronIssue printed expr now = some .neverFires ↔ ∀ t, ¬ Fires s t)

theorem kinds {s : CronSchedule} (h : ¬ EveryYear s) (hno : ¬ NoDate s) : LeapOnly s := by
  refine ⟨h, ?_⟩
  unfold EveryYear at h
  push Not at h
  obtain ⟨hdow, hdays⟩ := h
  by_contra hleap
  refine hno ⟨by simpa using hdow, fun m hm d hd => ?_⟩
  have hd' := hdays m hm d hd
  split
  · rename_i h2
    obtain rfl : m = 2 := by omega
    have hne : d ≠ 29 := by
      rintro rfl
      exact hleap ⟨hm, hd⟩
    have h28 : commonMonthLength (2 : Nat) = 28 := rfl
    rw [h28] at hd'
    omega
  · exact hd'

/-! ## The sets of an accepted schedule -/

/-- What the parser promises of the sets. -/
structure Usable (s : CronSchedule) : Prop where
  minute : ∃ v ∈ s.minutes, v ≤ 59
  minutes : ∀ v ∈ s.minutes, v ≤ 59
  hour : ∃ v ∈ s.hours, v ≤ 23
  hours : ∀ v ∈ s.hours, v ≤ 23
  month : ∃ v, v ∈ s.months
  months : ∀ v ∈ s.months, 1 ≤ v ∧ v ≤ 12
  dom : ∀ v ∈ s.dom, 1 ≤ v
  weekday : ∃ v ∈ s.dow, v ≤ 6
  anyDay : s.domRestricted = false → ∀ v, 1 ≤ v → v ≤ 31 → v ∈ s.dom
  anyWeekday : s.dowRestricted = false → ∀ v ≤ 6, v ∈ s.dow

theorem ParsedAs.usable {f : Crontab.Fields} {s : CronSchedule} (h : ParsedAs f s) (hwf : f.WellFormed) : Usable s := by
  have hrange : ∀ {F : Crontab.Field} {field v}, F.min ≤ F.max → Crontab.Denotes F field v → F.min ≤ v ∧ v ≤ F.max :=
    fun hF hd => hd.range hF
  obtain ⟨mi, hmi⟩ := hwf.minute.exists_denotes (by decide)
  obtain ⟨hr, hhr⟩ := hwf.hour.exists_denotes (by decide)
  obtain ⟨mo, hmo⟩ := hwf.month.exists_denotes (by decide)
  obtain ⟨w, hw⟩ := hwf.dayOfWeek.exists_denotes (by decide)
  refine ⟨⟨mi, (h.minutes mi).mpr hmi, (hrange (by decide) hmi).2⟩, fun v hv => ?_, ⟨hr, (h.hours hr).mpr hhr, (hrange (by decide) hhr).2⟩,
    fun v hv => ?_, ⟨mo, (h.months mo).mpr hmo⟩, fun v hv => ?_, fun v hv => ?_, ?_, fun hoff v h1 h31 => ?_, fun hoff v hv => ?_⟩
  · exact (hrange (by decide) ((h.minutes v).mp hv)).2
  · exact (hrange (by decide) ((h.hours v).mp hv)).2
  · exact hrange (by decide) ((h.months v).mp hv)
  · exact (hrange (by decide) ((h.dom v).mp hv)).1
  · have hw7 : w ≤ 7 := (hrange (by decide) hw).2
    by_cases h7 : w = 7
    · exact ⟨0, (h.dow 0 (by omega)).mpr (.inr ⟨rfl, h7 ▸ hw⟩), by omega⟩
    · exact ⟨w, (h.dow w (by omega)).mpr (.inl hw), by omega⟩
  · have hstar : f.dayOfMonth = ['*'] := by
      by_contra hne
      rw [h.domRestricted.mpr hne] at hoff
      cases hoff
    rw [h.dom, hstar]
    exact (Crontab.denotes_star (by decide)).mpr ⟨h1, h31⟩
  · have hstar : f.dayOfWeek = ['*'] := by
      by_contra hne
      rw [h.dowRestricted.mpr hne] at hoff
      cases hoff
    rw [h.dow v hv, hstar]
    exact .inl ((Crontab.denotes_star (by decide)).mpr ⟨Nat.zero_le v, Nat.le_trans hv (by decide)⟩)

/-! ## Fires and dates -/

section Schedule

variable {s : CronSchedule} {now t : Int}

/-- A date's minute of the schedule is a fire. -/
theorem fires_of_date {c : Date} (hc : c.Valid) {h mi : Nat} (hh : h ∈ s.hours) (hh23 : h ≤ 23) (hmi : mi ∈ s.minutes)
    (hmi59 : mi ≤ 59) (hm : c.month.toNat ∈ s.months)
    (hday : DayRule s (c.day.toNat ∈ s.dom) (((toDay c + 4) % 7).toNat ∈ s.dow))
    (hin : InTime (toDay c * dayMs + (h * 3600000 + mi * 60000))) : Fires s (toDay c * dayMs + (h * 3600000 + mi * 60000)) := by
  have hdays : (toDay c * dayMs + (h * 3600000 + mi * 60000)) / dayMs = toDay c := by unfold dayMs; omega
  have hhour : ((toDay c * dayMs + (h * 3600000 + mi * 60000)) / (60 * minuteMs) % 24).toNat = h := by
    unfold dayMs minuteMs
    omega
  have hmin : ((toDay c * dayMs + (h * 3600000 + mi * 60000)) / minuteMs % 60).toNat = mi := by
    unfold dayMs minuteMs
    omega
  refine ⟨by unfold dayMs minuteMs; omega, cronMatchesMinute_iff.mpr ⟨hin, ?_, ?_, ?_, ?_⟩⟩
  · rw [hmin]
    exact hmi
  · rw [hhour]
    exact hh
  · rw [hdays, ofDay_toDay hc]
    exact hm
  · rw [hdays, ofDay_toDay hc]
    exact hday

/-- When the weekday is free, a fire's date is one of the schedule's. -/
theorem fire_date (hdow : s.dowRestricted = false) (h : Fires s t) :
    (ofDay (t / dayMs)).month.toNat ∈ s.months ∧ (ofDay (t / dayMs)).day.toNat ∈ s.dom := by
  obtain ⟨_, _, _, hmonth, hday⟩ := cronMatchesMinute_iff.mp h.2
  unfold DayRule at hday
  rw [if_neg (by simp [hdow])] at hday
  exact ⟨hmonth, hday.1⟩

theorem NoDate.no_fires (h : NoDate s) : ¬ Fires s t := by
  intro hf
  obtain ⟨hdow, hdays⟩ := h
  obtain ⟨hm, hd⟩ := fire_date hdow hf
  have hlong := hdays _ hm _ hd
  obtain ⟨hm1, hm12, hd1, hlen⟩ := ofDay_valid (t / dayMs)
  have hle := monthLength_le (ofDay (t / dayMs)).year (ofDay (t / dayMs)).month
  rw [Int.toNat_of_nonneg (by omega), Int.toNat_of_nonneg (by omega)] at hlong
  have hsame : (ofDay (t / dayMs)).month.toNat = 2 ↔ (ofDay (t / dayMs)).month = 2 := by omega
  simp only [hsame] at hlong
  omega

/-- A fire of a schedule of leap days only is on one. -/
theorem LeapOnly.fire_eq (h : LeapOnly s) (hf : Fires s t) :
    ∃ y, isLeap y = true ∧ ∃ hr ∈ s.hours, ∃ mi ∈ s.minutes, t = leapFire y hr mi := by
  obtain ⟨hyear, _, _⟩ := h
  unfold EveryYear at hyear
  push Not at hyear
  obtain ⟨hdow, hdays⟩ := hyear
  obtain ⟨hm, hd⟩ := fire_date (by simpa using hdow) hf
  have hlong := hdays _ hm _ hd
  have hvalid := ofDay_valid (t / dayMs)
  have hback := toDay_ofDay (t / dayMs)
  generalize ofDay (t / dayMs) = c at hm hd hlong hvalid hback
  obtain ⟨y, m, d⟩ := c
  obtain ⟨hm1, hm12, hd1, hlen⟩ := hvalid
  simp only at hm1 hm12 hd1 hlen hlong
  rw [Int.toNat_of_nonneg (by omega), Int.toNat_of_nonneg (by omega)] at hlong
  unfold monthLength at hlen
  obtain ⟨hdvd, hmatch⟩ := hf
  obtain ⟨_, hmin, hhour, _, _⟩ := cronMatchesMinute_iff.mp hmatch
  split at hlen
  · rename_i hleap
    obtain ⟨rfl, hleap⟩ := hleap
    have h28 : commonMonthLength 2 = 28 := rfl
    obtain rfl : d = 29 := by omega
    refine ⟨y, hleap, _, hhour, _, hmin, ?_⟩
    unfold leapFire
    rw [hback]
    obtain ⟨q, rfl⟩ := hdvd
    unfold dayMs minuteMs
    omega
  · omega

theorem LeapOnly.fires (h : LeapOnly s) (hs : Usable s) {y : Int} (hy : isLeap y = true) {hr mi : Nat} (hhr : hr ∈ s.hours)
    (hmi : mi ∈ s.minutes) (hin : InTime (leapFire y hr mi)) : Fires s (leapFire y hr mi) := by
  obtain ⟨hyear, hfeb, hday⟩ := h
  unfold EveryYear at hyear
  push Not at hyear
  have hdow : s.dowRestricted = false := by simpa using hyear.1
  have hvalid : (⟨y, 2, 29⟩ : Date).Valid := ⟨by simp, by simp, by simp, by simp [monthLength, hy]⟩
  refine fires_of_date hvalid hhr (hs.hours hr hhr) hmi (hs.minutes mi hmi) hfeb ?_ hin
  unfold DayRule
  rw [if_neg (by simp [hdow])]
  exact ⟨hday, hs.anyWeekday hdow _ (by omega)⟩

/-- A schedule of days that come every year fires within the horizon. -/
theorem EveryYear.fires (h : EveryYear s) (hs : Usable s) (hnow : InTime now) (hend : now + horizonMs ≤ maxTime) :
    ∃ t, Fires s t ∧ now < t ∧ t ≤ now + horizonMs := by
  have hhorizon : horizonMs = 366 * dayMs := rfl
  have hday : dayMs = 86400000 := rfl
  obtain ⟨mi, hmi, hmi59⟩ := hs.minute
  obtain ⟨hr, hhr, hhr23⟩ := hs.hour
  have hfound : ∀ c : Date, c.Valid → c.month.toNat ∈ s.months →
      DayRule s (c.day.toNat ∈ s.dom) (((toDay c + 4) % 7).toNat ∈ s.dow) →
      now < toDay c * dayMs + (hr * 3600000 + mi * 60000) → toDay c * dayMs + (hr * 3600000 + mi * 60000) ≤ now + 366 * dayMs →
      ∃ t, Fires s t ∧ now < t ∧ t ≤ now + horizonMs := by
    intro c hc hm hrule hlow hhigh
    have hin : InTime (toDay c * dayMs + (hr * 3600000 + mi * 60000)) := ⟨by have := hnow.1; omega, by omega⟩
    exact ⟨_, fires_of_date hc hhr hhr23 hmi hmi59 hm hrule hin, hlow, by omega⟩
  by_cases hdow : s.dowRestricted = true
  · obtain ⟨m, hm⟩ := hs.month
    obtain ⟨w, hw, hw6⟩ := hs.weekday
    obtain ⟨hm1, hm12⟩ := hs.months m hm
    obtain ⟨c, hc, hmonth, hweek, hlow, hhigh⟩ := @exists_weekday m w (by omega) (by omega) (by omega) (by omega)
      dayMs (hr * 3600000 + mi * 60000) (by omega) (by omega) now
    refine hfound c hc (by rw [hmonth]; exact hm) ?_ hlow hhigh
    have hon : ((toDay c + 4) % 7).toNat ∈ s.dow := by rw [hweek]; exact hw
    unfold DayRule
    split
    · exact .inr hon
    · rename_i hboth
      have hdom : s.domRestricted = false := by simpa [hdow] using hboth
      obtain ⟨_, _, hd1, hlen⟩ := hc
      have hle := monthLength_le c.year c.month
      have hmax : commonMonthLength c.month ≤ 31 := by unfold commonMonthLength; split <;> [omega; (split <;> omega)]
      exact ⟨hs.anyDay hdom _ (by omega) (by split at hle <;> omega), hon⟩
  · have hdow : s.dowRestricted = false := by simpa using hdow
    rcases h with h | ⟨m, hm, d, hd, hlen⟩
    · rw [hdow] at h
      cases h
    · obtain ⟨hm1, hm12⟩ := hs.months m hm
      have hd1 := hs.dom d hd
      obtain ⟨y, hlow, hhigh⟩ := @exists_first m d (by omega) (by omega) (by omega) hlen dayMs (hr * 3600000 + mi * 60000)
        (by omega) (by omega) now
      refine hfound ⟨y, m, d⟩ ?_ hm ?_ hlow hhigh
      · exact ⟨by simp only; omega, by simp only; omega, by simp only; omega, Int.le_trans hlen (commonMonthLength_le y m)⟩
      · unfold DayRule
        rw [if_neg (by simp [hdow])]
        exact ⟨hd, hs.anyWeekday hdow _ (by omega)⟩

/-! ## The check -/

theorem next_eq_none :
    nextCronFire s now = none ↔ ∀ t, Fires s t → now < t → ¬ t ≤ now + horizonMs := by
  unfold nextCronFire floorToMinute
  rw [Scan.up_eq_none (by decide), Set.eq_empty_iff_forall_notMem]
  constructor
  · intro h t hf hlow hhigh
    exact h t ⟨hf.1, hf.2, hlow, hhigh⟩
  · rintro h t ⟨hd, hp, hlow, hhigh⟩
    exact h t ⟨hd, hp⟩ hlow hhigh

theorem cronIssue_eq {printed : Option Nat → String} {expr : String} (h : parseCronExpression expr = .ok s) :
    cronIssue printed expr now = some .neverFires ↔ nextCronFire s now = none := by
  unfold cronIssue
  rw [h]
  simp

/-- A covered schedule that fires at all has a fire ahead within the horizon. -/
theorem Covered.fires (h : Covered s now) (hs : Usable s) (hnow : InTime now) :
    (∀ t, ¬ Fires s t) ∨ ∃ t, Fires s t ∧ now < t ∧ t ≤ now + horizonMs := by
  rcases h with hno | ⟨hleap, hend⟩ | ⟨y, hy, hr, hhr, mi, hmi, hlow, hhigh, hmax, hleap⟩
  · exact .inl fun t => hno.no_fires
  · by_cases hyear : EveryYear s
    · by_cases hfits : now + horizonMs ≤ maxTime
      · exact .inr (hyear.fires hs hnow hfits)
      · obtain ⟨t, hlow, hf⟩ := hend.resolve_left hfits
        have hin := (cronMatchesMinute_iff.mp hf.2).1
        exact .inr ⟨t, hf, hlow, by have := hin.2; omega⟩
    · by_cases hno : NoDate s
      · exact .inl fun t => hno.no_fires
      · exact absurd (kinds hyear hno) hleap
  · exact .inr ⟨_, hleap.fires hs hy hhr hmi ⟨by have := hnow.1; omega, hmax⟩, hlow, hhigh⟩

/-- A schedule about some date fires at some time. -/
theorem exists_fire (hs : Usable s) (hno : ¬ NoDate s) : ∃ t, Fires s t := by
  by_cases hyear : EveryYear s
  · obtain ⟨t, hf, _⟩ := @EveryYear.fires s 0 hyear hs (by decide) (by decide)
    exact ⟨t, hf⟩
  · obtain ⟨hr, hhr, hhr23⟩ := hs.hour
    obtain ⟨mi, hmi, hmi59⟩ := hs.minute
    have hday : toDay ⟨2000, 2, 29⟩ = 11016 := by decide
    refine ⟨_, (kinds hyear hno).fires hs (y := 2000) (by decide) hhr hmi ?_⟩
    unfold InTime leapFire
    rw [hday]
    unfold dayMs maxTime
    omega

theorem covered_iff (hs : Usable s) (hnow : InTime now) :
    Covered s now ↔ (nextCronFire s now = none → ∀ t, ¬ Fires s t) := by
  constructor
  · intro h hnone
    rcases h.fires hs hnow with hno | ⟨t, hf, hlow, hhigh⟩
    · exact hno
    · exact absurd hhigh (next_eq_none.mp hnone t hf hlow)
  · intro h
    by_cases hno : NoDate s
    · exact .inl hno
    obtain ⟨u, hu⟩ := exists_fire hs hno
    have hsome : ¬ ∀ t, Fires s t → now < t → ¬ t ≤ now + horizonMs := fun hall => h (next_eq_none.mpr hall) u hu
    push Not at hsome
    obtain ⟨t, hf, hlow, hhigh⟩ := hsome
    by_cases hleap : LeapOnly s
    · obtain ⟨y, hy, hr, hhr, mi, hmi, rfl⟩ := hleap.fire_eq hf
      have hin := (cronMatchesMinute_iff.mp hf.2).1
      exact .inr (.inr ⟨y, hy, hr, hhr, mi, hmi, hlow, hhigh, hin.2, hleap⟩)
    · exact .inr (.inl ⟨hleap, .inr ⟨t, hlow, hf⟩⟩)

end Schedule

/-- The check does what it is meant to exactly for the covered schedules. -/
theorem validation_exact_iff (printed : Option Nat → String) (expr : String) (now : Instant) :
    ValidationExact printed expr now.1 ↔ ∀ s, parseCronExpression expr = .ok s → Covered s now.1 := by
  have hkey : ∀ s, parseCronExpression expr = .ok s →
      (Covered s now.1 ↔ (nextCronFire s now.1 = none → ∀ t, ¬ Fires s t)) := by
    intro s hs
    obtain ⟨f, _, hwf, hp⟩ := parseCronExpression_ok hs
    exact covered_iff (hp.usable hwf) now.2
  constructor
  · intro h s hs
    refine (hkey s hs).mpr fun hnone => (h.rejects s hs).mp ((cronIssue_eq hs).mpr hnone)
  · intro h
    refine ⟨fun s hs hnone t _ => (hkey s hs).mp (h s hs) hnone t, fun s hs => ?_⟩
    rw [cronIssue_eq hs]
    exact ⟨(hkey s hs).mp (h s hs), fun hno => next_eq_none.mpr fun t hf => absurd hf (hno t)⟩

/-! ## Leap days -/

def leapDays : Crontab.Fields := ⟨['0'], ['0'], ['2', '9'], ['2'], ['*']⟩

theorem wellFormed_number {F : Crontab.Field} {text : List Char} (hn : Crontab.Numeral text) (hmin : F.min ≤ Crontab.value text)
    (hmax : Crontab.value text ≤ F.max) : Crontab.WellFormed F text := by
  intro item hitem
  rw [List.splitOn_eq_singleton (hn.not_mem (by decide)), List.mem_singleton] at hitem
  rw [hitem]
  exact ⟨_, _, _, .plain (.number hn hmin hmax)⟩

theorem denotes_number {F : Crontab.Field} {text : List Char} (hn : Crontab.Numeral text) (hmin : F.min ≤ Crontab.value text)
    (hmax : Crontab.value text ≤ F.max) {v : Nat} : Crontab.Denotes F text v ↔ v = Crontab.value text := by
  have hsplit : text.splitOn ',' = [text] := List.splitOn_eq_singleton (hn.not_mem (by decide))
  have hitem : Crontab.Item F text (Crontab.value text) (Crontab.value text) 1 := .plain (.number hn hmin hmax)
  constructor
  · rintro ⟨item, hmem, lo, hi, step, hI, j, rfl, hle⟩
    rw [hsplit, List.mem_singleton] at hmem
    subst hmem
    obtain ⟨rfl, rfl, rfl⟩ := hI.unique hitem
    omega
  · rintro rfl
    exact ⟨text, by rw [hsplit]; exact List.mem_singleton_self _, _, _, _, hitem, 0, by simp, Nat.le_refl _⟩

theorem leapDays_wellFormed : leapDays.WellFormed :=
  ⟨wellFormed_number (allDigits_iff.mp rfl) (by decide) (by decide), wellFormed_number (allDigits_iff.mp rfl) (by decide) (by decide),
    wellFormed_number (allDigits_iff.mp rfl) (by decide) (by decide), wellFormed_number (allDigits_iff.mp rfl) (by decide) (by decide),
    Crontab.wellFormed_star _⟩

theorem leapDays_leapOnly {s : CronSchedule} (h : ParsedAs leapDays s) : LeapOnly s := by
  have hmonth : ∀ v, v ∈ s.months ↔ v = 2 := fun v =>
    (h.months v).trans (denotes_number (allDigits_iff.mp rfl) (by decide) (by decide))
  have hdom : ∀ v, v ∈ s.dom ↔ v = 29 := fun v =>
    (h.dom v).trans (denotes_number (allDigits_iff.mp rfl) (by decide) (by decide))
  refine ⟨?_, (hmonth 2).mpr rfl, (hdom 29).mpr rfl⟩
  rintro (hdow | ⟨m, hm, d, hd, hlen⟩)
  · exact h.dowRestricted.mp hdow rfl
  · obtain rfl := (hmonth m).mp hm
    obtain rfl := (hdom d).mp hd
    exact absurd hlen (by decide)

/-- The first of March 2025. -/
def marchFirst2025 : Int := 1740787200000

/-- Between its first of March and the same day a year on, 2025 has no leap day. -/
theorem no_leap_day {y : Int} (hy : isLeap y = true) {h mi : Nat} (hh : h ≤ 23) (hmi : mi ≤ 59)
    (hlow : marchFirst2025 < leapFire y h mi) : marchFirst2025 + horizonMs < leapFire y h mi := by
  have hvalid : ∀ {y}, isLeap y = true → (⟨y, 2, 29⟩ : Date).Valid := by
    intro y hy
    exact ⟨by simp, by simp, by simp, by simp [monthLength, hy]⟩
  have h2024 : toDay ⟨2024, 2, 29⟩ = 19782 := by decide
  have h2028 : toDay ⟨2028, 2, 29⟩ = 21243 := by decide
  have hhorizon : horizonMs = 31622400000 := rfl
  unfold leapFire dayMs marchFirst2025 at *
  have hcases : y < 2024 ∨ y = 2024 ∨ y = 2025 ∨ y = 2026 ∨ y = 2027 ∨ y = 2028 ∨ 2028 < y := by omega
  rcases hcases with hlt | rfl | rfl | rfl | rfl | rfl | hgt
  · have hbefore : Date.Before ⟨y, 2, 29⟩ ⟨2024, 2, 29⟩ := .inl hlt
    have := hbefore.toDay_lt (hvalid hy) (hvalid (by decide))
    omega
  · omega
  · exact absurd hy (by decide)
  · exact absurd hy (by decide)
  · exact absurd hy (by decide)
  · omega
  · have hbefore : Date.Before ⟨2028, 2, 29⟩ ⟨y, 2, 29⟩ := .inl hgt
    have := hbefore.toDay_lt (hvalid (by decide)) (hvalid hy)
    omega

/-- In March 2025 a schedule of leap days is rejected as one that never fires, though it
    fires in 2028. -/
theorem leap_day_rejected :
    ¬ ValidationExact (fun n => (n.map toString).getD "Infinity") "0 0 29 2 *" marchFirst2025 ∧
      ∃ s, parseCronExpression "0 0 29 2 *" = .ok s ∧ nextCronFire s marchFirst2025 = none ∧ marchFirst2025 < 1835395200000 ∧
        Fires s 1835395200000 := by
  have hfields : fieldsOf "0 0 29 2 *" = some leapDays := rfl
  obtain ⟨s, hs⟩ := parseCronExpression_ok_iff.mpr ⟨_, hfields, leapDays_wellFormed⟩
  obtain ⟨f, hf, hwf, hp⟩ := parseCronExpression_ok hs
  obtain rfl : leapDays = f := Option.some.inj (hfields.symm.trans hf)
  have hleap := leapDays_leapOnly hp
  have husable := hp.usable hwf
  have hzero : ∀ {F : Crontab.Field}, F.min = 0 → Crontab.Denotes F ['0'] 0 := fun hF =>
    (denotes_number (allDigits_iff.mp rfl) (by rw [hF]; exact Nat.zero_le _) (Nat.zero_le _)).mpr rfl
  have hnone : nextCronFire s marchFirst2025 = none := by
    rw [next_eq_none]
    intro t hfire hlow hhigh
    obtain ⟨y, hy, h, hh, mi, hmi, rfl⟩ := hleap.fire_eq hfire
    have := no_leap_day hy (husable.hours h hh) (husable.minutes mi hmi) hlow
    omega
  have hfire : Fires s 1835395200000 := by
    have h := @LeapOnly.fires s hleap husable 2028 (by decide) 0 0 ((hp.hours 0).mpr (hzero rfl))
      ((hp.minutes 0).mpr (hzero rfl)) (by decide)
    have ht : leapFire 2028 0 0 = 1835395200000 := by decide
    rwa [ht] at h
  refine ⟨fun hexact => hexact.null s hs hnone _ (by decide) hfire, s, hs, hnone, by decide, hfire⟩

end LaunchPad.Cron
