/-
  LaunchPad.Agent.Health — waiting for a replica's health (`agent-rust/src/health.rs`
  `wait_healthy`), with the ceiling a rollout grants (`rollout_health_ceiling_ms`).

  The closures are what they answer: `probe n` is the result of the n-th probe and `now n`
  the n-th reading of the clock. The first reading sets the deadline. `waitHealthy` is the
  loop for at most `fuel` passes; it returns the verdict with what the wait has used.

  As built: the schema bounds the interval, the timeout and the threshold from below only,
  and a release build wraps. A product over 64 bits leaves a ceiling of 30 s, and a deadline
  over 64 bits has passed at the first reading.

  Proved:
  - `counts_waitPass`, `waitHealthy_counts`: what a pass keeps, and so a whole wait.
  - `waitHealthy_ends`: on a clock that advances a wait returns.
  - `wait_sound_iff`: exactly when a wait is sound and bounded.
  - `steady_replica_healthy`: within 64 bits, a replica with the required successes among
    its first eight times as many probes is found healthy, and at the first such probe.
  - `uses_waits`: a rollout waits with its own health check and that check's ceiling.
-/
import LaunchPad.Agent.Overflow
import LaunchPad.Lib.Polling
import Mathlib.Tactic.Ring

namespace LaunchPad.Agent.Health

open Lib Lib.Polling

/-! ## The loop -/

/-- What a wait has used so far. The deadline's own reading is the first. -/
structure Waiting where
  probes : Nat := 0
  readings : Nat := 1
  slept : List Int := []
  consecutive : Int := 0
  deriving DecidableEq, Repr

/-- After the next probe. -/
def Waiting.probed (s : Waiting) (ok : Bool) : Waiting :=
  { s with probes := s.probes + 1, consecutive := if ok then i64 (s.consecutive + 1) else 0 }

def Waiting.read (s : Waiting) : Waiting := { s with readings := s.readings + 1 }

def Waiting.rested (s : Waiting) (ms : Int) : Waiting := { s with slept := s.slept ++ [ms] }

@[simp] theorem Waiting.probed_probes (s : Waiting) (ok : Bool) : (s.probed ok).probes = s.probes + 1 := rfl

@[simp] theorem Waiting.read_probes (s : Waiting) : s.read.probes = s.probes := rfl

section Wait

variable (hc : HealthCheck) (probe : Nat → Bool) (now : Nat → Int)

/-- The end of a pass: give up at the deadline, or sleep and go round. -/
def giveUpOrSleep (deadline : Int) (s : Waiting) : Pass Waiting (Bool × Waiting) :=
  if now s.readings ≥ deadline then .leave (false, s.read) else .again (s.read.rested hc.intervalMs)

/-- One pass of the loop. -/
def waitPass (deadline : Int) (s : Waiting) : Pass Waiting (Bool × Waiting) :=
  if probe s.probes then
    if (s.probed true).consecutive ≥ hc.healthyThreshold then .leave (true, s.probed true)
    else giveUpOrSleep hc now deadline (s.probed true)
  else giveUpOrSleep hc now deadline (s.probed false)

/-- `wait_healthy`. -/
def waitHealthy (ceilingMs : Int) (fuel : Nat) : Option (Bool × Waiting) :=
  run (waitPass hc probe now (i64 (now 0 + ceilingMs))) fuel {}

end Wait

variable {hc : HealthCheck} {probe : Nat → Bool} {now : Nat → Int} {deadline : Int} {s : Waiting}

/-- The three ways a pass ends. -/
theorem waitPass_cases (hc : HealthCheck) (probe : Nat → Bool) (now : Nat → Int) (deadline : Int) (s : Waiting) :
    (probe s.probes = true ∧ hc.healthyThreshold ≤ (s.probed true).consecutive ∧
      waitPass hc probe now deadline s = .leave (true, s.probed true)) ∨
    ((probe s.probes = true → (s.probed true).consecutive < hc.healthyThreshold) ∧
      (deadline ≤ now s.readings ∧
        waitPass hc probe now deadline s = .leave (false, (s.probed (probe s.probes)).read) ∨
      now s.readings < deadline ∧
        waitPass hc probe now deadline s = .again ((s.probed (probe s.probes)).read.rested hc.intervalMs))) := by
  have hend : ∀ ok, deadline ≤ now s.readings ∧
        giveUpOrSleep hc now deadline (s.probed ok) = .leave (false, (s.probed ok).read) ∨
      now s.readings < deadline ∧
        giveUpOrSleep hc now deadline (s.probed ok) = .again ((s.probed ok).read.rested hc.intervalMs) := by
    intro ok
    unfold giveUpOrSleep
    show _ ∧ (if now s.readings ≥ deadline then _ else _) = _ ∨ _ ∧ (if now s.readings ≥ deadline then _ else _) = _
    by_cases hd : now s.readings ≥ deadline
    · left
      simp [hd]
    · right
      simp [hd]
      omega
  unfold waitPass
  cases hp : probe s.probes with
  | false =>
    right
    simpa using hend false
  | true =>
    by_cases hthreshold : (s.probed true).consecutive ≥ hc.healthyThreshold
    · left
      simp [hthreshold]
    · right
      simp only [if_true, if_neg hthreshold]
      exact ⟨fun _ => by omega, hend true⟩

theorem waitPass_leave {verdict : Bool × Waiting} (h : waitPass hc probe now deadline s = .leave verdict) :
    (probe s.probes = true ∧ hc.healthyThreshold ≤ (s.probed true).consecutive ∧ verdict = (true, s.probed true)) ∨
    ((probe s.probes = true → (s.probed true).consecutive < hc.healthyThreshold) ∧ deadline ≤ now s.readings ∧
      verdict = (false, (s.probed (probe s.probes)).read)) := by
  obtain ⟨hp, hmet, he⟩ | ⟨hgo, ⟨hlate, he⟩ | ⟨_, he⟩⟩ := waitPass_cases hc probe now deadline s
  · left
    simpa [hp, hmet] using h.symm.trans he
  · right
    simpa [hlate] using And.intro hgo (h.symm.trans he)
  · cases h.symm.trans he

theorem waitPass_again {s' : Waiting} (h : waitPass hc probe now deadline s = .again s') :
    (probe s.probes = true → (s.probed true).consecutive < hc.healthyThreshold) ∧ now s.readings < deadline ∧
      s' = (s.probed (probe s.probes)).read.rested hc.intervalMs := by
  obtain ⟨_, _, he⟩ | ⟨hgo, ⟨_, he⟩ | ⟨hearly, he⟩⟩ := waitPass_cases hc probe now deadline s
  · cases h.symm.trans he
  · cases h.symm.trans he
  · simpa [hearly] using And.intro hgo (h.symm.trans he)

/-! ## What a wait counts -/

/-- A wait on its way: one reading and one sleep for each probe, and a count that is never
    more than the successes in a row. -/
structure Counts (hc : HealthCheck) (probe : Nat → Bool) (s : Waiting) : Prop where
  readings : s.readings = s.probes + 1
  slept : s.slept = List.replicate s.probes hc.intervalMs
  low : -i64Max - 1 ≤ s.consecutive
  streak : s.consecutive ≤ streak probe s.probes

/-- The count is exact, and no row of successes has been long enough. -/
structure Unmet (hc : HealthCheck) (probe : Nat → Bool) (s : Waiting) : Prop where
  exact : s.consecutive = streak probe s.probes
  short : ∀ n ≤ s.probes, (streak probe n : Int) < hc.healthyThreshold

/-- A wrap takes a count down. -/
theorem i64_le_self {x : Int} (h : -i64Max - 1 ≤ x) : i64 x ≤ x := by
  by_cases hmax : x ≤ i64Max
  · rw [i64_exact h hmax]
  · have := i64_le x
    omega

theorem counts_start : Counts hc probe {} := ⟨rfl, rfl, by decide, Int.le_refl 0⟩

theorem unmet_start (h : 0 < hc.healthyThreshold) : Unmet hc probe {} := by
  refine ⟨rfl, fun n hn => ?_⟩
  have hzero : n = 0 := Nat.le_zero.mp hn
  subst hzero
  exact h

/-- A wrapped count is below the streak. -/
theorem probed_le_streak (hs : Counts hc probe s) :
    (s.probed (probe s.probes)).consecutive ≤ streak probe (s.probes + 1) := by
  have hlow := hs.low
  have hstreak := hs.streak
  cases hp : probe s.probes with
  | false =>
    rw [streak_failure hp]
    exact Int.le_refl 0
  | true =>
    rw [streak_success hp]
    have := @i64_le_self (s.consecutive + 1) (by omega)
    show i64 (s.consecutive + 1) ≤ _
    omega

theorem probed_low (s : Waiting) (ok : Bool) : -i64Max - 1 ≤ (s.probed ok).consecutive := by
  cases ok with
  | false => exact (by decide : -i64Max - 1 ≤ 0)
  | true => exact (i64_bounds (s.consecutive + 1)).1

/-- What going round keeps. -/
theorem counts_waitPass (hs : Counts hc probe s) :
    Counts hc probe ((s.probed (probe s.probes)).read.rested hc.intervalMs) where
  readings := by
    show s.readings + 1 = s.probes + 1 + 1
    rw [hs.readings]
  slept := by
    show s.slept ++ [hc.intervalMs] = List.replicate (s.probes + 1) hc.intervalMs
    rw [hs.slept, List.replicate_succ']
  low := probed_low s (probe s.probes)
  streak := probed_le_streak hs

/-- A count under a threshold of 64 bits does not wrap. -/
theorem probed_eq_streak (hmax : hc.healthyThreshold ≤ i64Max) (hs : Unmet hc probe s) :
    (s.probed (probe s.probes)).consecutive = streak probe (s.probes + 1) := by
  have hexact := hs.exact
  have hshort := hs.short s.probes (Nat.le_refl _)
  cases hp : probe s.probes with
  | false =>
    rw [streak_failure hp]
    rfl
  | true =>
    rw [streak_success hp]
    show i64 (s.consecutive + 1) = _
    rw [i64_of_le (by omega) (by omega), hexact]
    simp

theorem unmet_probed (h0 : 0 < hc.healthyThreshold) (hmax : hc.healthyThreshold ≤ i64Max) (hs : Unmet hc probe s)
    (hgo : probe s.probes = true → (s.probed true).consecutive < hc.healthyThreshold) :
    Unmet hc probe (s.probed (probe s.probes)) := by
  have hexact := probed_eq_streak hmax hs
  refine ⟨hexact, fun n hn => ?_⟩
  by_cases hlast : n = s.probes + 1
  · rw [hlast, ← hexact]
    cases hp : probe s.probes with
    | false => exact h0
    | true => exact hgo hp
  · rw [Waiting.probed_probes] at hn
    exact hs.short n (by omega)

/-! ## What a verdict says -/

/-- What holds when a wait returns. -/
structure Verdict (hc : HealthCheck) (probe : Nat → Bool) (now : Nat → Int) (deadline : Int) (verdict : Bool × Waiting) :
    Prop where
  /-- One sleep of the interval between a probe and the next. -/
  slept : verdict.2.slept = List.replicate (verdict.2.probes - 1) hc.intervalMs
  healthy : verdict.1 = true → hc.healthyThreshold ≤ streak probe verdict.2.probes
  unhealthy : verdict.1 = false → verdict.2.readings = verdict.2.probes + 1 ∧ deadline ≤ now verdict.2.probes

theorem verdict_waitPass {verdict : Bool × Waiting} (hs : Counts hc probe s)
    (h : waitPass hc probe now deadline s = .leave verdict) : Verdict hc probe now deadline verdict := by
  have hle := probed_le_streak hs
  obtain ⟨hp, hmet, rfl⟩ | ⟨_, hlate, rfl⟩ := waitPass_leave h
  · rw [hp] at hle
    exact ⟨hs.slept, fun _ => hmet.trans hle, nofun⟩
  · refine ⟨hs.slept, nofun, fun _ => ⟨?_, ?_⟩⟩
    · show s.readings + 1 = s.probes + 1 + 1
      rw [hs.readings]
    · rwa [hs.readings] at hlate

/-- Whatever the probes and the clock answer. -/
theorem waitHealthy_counts {ceilingMs : Int} {fuel : Nat} {verdict : Bool × Waiting}
    (h : waitHealthy hc probe now ceilingMs fuel = some verdict) :
    Verdict hc probe now (i64 (now 0 + ceilingMs)) verdict := by
  refine run_spec (I := Counts hc probe) (fun s a hs hleave => verdict_waitPass hs hleave) ?_ counts_start h
  intro s s' hs hagain
  obtain ⟨_, _, rfl⟩ := waitPass_again hagain
  exact counts_waitPass hs

/-- No row of successes was long enough before a verdict, and none at all before a failure. -/
def First (hc : HealthCheck) (probe : Nat → Bool) (verdict : Bool × Waiting) : Prop :=
  ∀ n, (n < verdict.2.probes ∨ verdict.1 = false ∧ n = verdict.2.probes) → (streak probe n : Int) < hc.healthyThreshold

theorem waitHealthy_first (h0 : 0 < hc.healthyThreshold) (hmax : hc.healthyThreshold ≤ i64Max) {ceilingMs : Int}
    {fuel : Nat} {verdict : Bool × Waiting} (h : waitHealthy hc probe now ceilingMs fuel = some verdict) :
    First hc probe verdict := by
  refine run_spec (I := Unmet hc probe) ?_ ?_ (unmet_start h0) h
  · intro s verdict hs hleave n hn
    obtain ⟨_, _, rfl⟩ | ⟨hgo, _, rfl⟩ := waitPass_leave hleave
    · have hlt : n < s.probes + 1 := by simpa using hn
      exact hs.short n (by omega)
    · have hle : n ≤ s.probes + 1 := by
        have : n < s.probes + 1 ∨ n = s.probes + 1 := by simpa using hn
        omega
      exact (unmet_probed h0 hmax hs hgo).short n hle
  · intro s s' hs hagain
    obtain ⟨hgo, _, rfl⟩ := waitPass_again hagain
    have hunmet := unmet_probed h0 hmax hs hgo
    exact ⟨hunmet.exact, hunmet.short⟩

/-! ## The clock -/

/-- A clock that advances: an `i64` that never goes back, nor stands still for good before
    its last value. -/
structure Clock where
  now : Nat → Int
  inI64 : ∀ n, InI64 (now n)
  mono : ∀ m n, m ≤ n → now m ≤ now n
  advances : ∀ n, now n < i64Max → ∃ m, now n < now m

/-- It passes every deadline. -/
theorem Clock.reaches (clock : Clock) {t : Int} (ht : t ≤ i64Max) : ∃ n, t ≤ clock.now n := by
  have hclimb : ∀ k : Nat, ∃ n, min (clock.now 0 + k) i64Max ≤ clock.now n := by
    intro k
    induction k with
    | zero => exact ⟨0, by simp⟩
    | succ k ih =>
      obtain ⟨n, hn⟩ := ih
      by_cases hlast : clock.now n < i64Max
      · obtain ⟨m, hm⟩ := clock.advances n hlast
        exact ⟨m, by omega⟩
      · exact ⟨n, by omega⟩
  obtain ⟨n, hn⟩ := hclimb (t - clock.now 0).toNat
  exact ⟨n, by omega⟩

/-- A wait goes round only before its deadline, which the clock passes. -/
theorem waitHealthy_ends (hc : HealthCheck) (probe : Nat → Bool) (clock : Clock) (ceilingMs : Int) :
    ∃ fuel verdict, waitHealthy hc probe clock.now ceilingMs fuel = some verdict := by
  obtain ⟨last, hlast⟩ := clock.reaches (i64_bounds (clock.now 0 + ceilingMs)).2
  refine ⟨last + 1, run_ends (μ := fun s => last - s.readings) ?_ (by show last - 1 < last + 1; omega)⟩
  intro s s' hagain
  obtain ⟨_, hearly, rfl⟩ := waitPass_again hagain
  have hbefore : s.readings < last := by
    by_contra hge
    have := clock.mono _ _ (Nat.le_of_not_lt hge)
    omega
  show last - (s.readings + 1) < last - s.readings
  omega

/-! ## When a wait is sound and bounded -/

/-- A wait's contract, for one sequence of probe results and one clock, under the ceiling a
    rollout grants. -/
structure WaitSound (hc : HealthCheck) (probe : Nat → Bool) (clock : Clock) : Prop where
  ends : ∃ fuel verdict, waitHealthy hc probe clock.now (rolloutHealthCeilingMs hc) fuel = some verdict
  /-- `true`: the last probes made are the required successes, with no failure among them. -/
  healthy : ∀ fuel s, waitHealthy hc probe clock.now (rolloutHealthCeilingMs hc) fuel = some (true, s) →
    hc.healthyThreshold ≤ s.probes ∧
      ∀ n : Nat, (s.probes : Int) ≤ n + hc.healthyThreshold → n < s.probes → probe n = true
  /-- `false`: the last reading is the ceiling or more after the first. -/
  unhealthy : ∀ fuel s, waitHealthy hc probe clock.now (rolloutHealthCeilingMs hc) fuel = some (false, s) →
    rolloutHealthCeilingMs hc ≤ clock.now (s.readings - 1) - clock.now 0
  enough : hc.healthyThreshold * hc.intervalMs ≤ rolloutHealthCeilingMs hc

/-- The ceiling's product fits 64 bits, or what a wrap leaves of it is enough all the same. -/
def CeilingFits (hc : HealthCheck) : Prop :=
  probeMs hc ≤ i64Max ∨ hc.healthyThreshold * hc.intervalMs ≤ 30000 ∨
    hc.healthyThreshold * hc.intervalMs ≤ i64 (probeMs hc)

/-- The deadline fits 64 bits, or one success is required and the first probe is one. -/
def DeadlineFits (hc : HealthCheck) (probe : Nat → Bool) (start : Int) : Prop :=
  (start + 30000 ≤ i64Max ∧ start + i64 (probeMs hc) ≤ i64Max) ∨ hc.healthyThreshold = 1 ∧ probe 0 = true

/-- The last wrap decides. -/
theorem rolloutHealthCeilingMs_eq (hc : HealthCheck) : rolloutHealthCeilingMs hc = max 30000 (i64 (probeMs hc)) := by
  simp only [rolloutHealthCeilingMs, probeMs, i64, Int.bmod_mul_bmod]

theorem ceiling_bounds (hc : HealthCheck) : 30000 ≤ rolloutHealthCeilingMs hc ∧ rolloutHealthCeilingMs hc ≤ i64Max := by
  have hmax := (i64_bounds (probeMs hc)).2
  have hfloor : 30000 ≤ i64Max := by decide
  rw [rolloutHealthCeilingMs_eq]
  omega

/-- The product covers eight rounds of a probe and a sleep for each required success. -/
theorem interval_le_probeMs (h : healthCheckSchema hc = true) : hc.healthyThreshold * hc.intervalMs ≤ probeMs hc := by
  obtain ⟨hinterval, htimeout, hthreshold⟩ := healthCheckSchema_pos h
  have hinterval' : 0 ≤ hc.healthyThreshold * hc.intervalMs := Int.mul_nonneg hthreshold.le hinterval.le
  have htimeout' : 0 ≤ hc.healthyThreshold * hc.timeoutMs := Int.mul_nonneg hthreshold.le htimeout.le
  have hproduct : probeMs hc = 8 * (hc.healthyThreshold * hc.timeoutMs) + 8 * (hc.healthyThreshold * hc.intervalMs) := by
    unfold probeMs
    ring
  omega

theorem enough_iff (h : healthCheckSchema hc = true) :
    hc.healthyThreshold * hc.intervalMs ≤ rolloutHealthCeilingMs hc ↔ CeilingFits hc := by
  have hle := interval_le_probeMs h
  rw [rolloutHealthCeilingMs_eq]
  unfold CeilingFits
  constructor
  · intro henough
    omega
  · intro hfits
    obtain hmax | hfloor | hwrapped := hfits
    · have hpos := healthCheckSchema_pos h
      have hinterval := Int.mul_pos hpos.2.2 hpos.1
      rw [i64_of_le (by omega) hmax]
      omega
    · omega
    · omega

/-- A deadline over 64 bits is in the past. -/
theorem wrapped_deadline {start ceilingMs : Int} (hstart : start ≤ i64Max) (hceiling : ceilingMs ≤ i64Max)
    (hwrap : i64Max < start + ceilingMs) : i64 (start + ceilingMs) ≤ start := by
  rw [i64_wraps hwrap (by omega)]
  unfold i64Max at hceiling
  omega

/-- The first pass of a wait whose deadline has passed. -/
theorem waitHealthy_late {ceilingMs : Int} (hlate : i64 (now 0 + ceilingMs) ≤ now 1)
    (hgo : probe 0 = true → 1 < hc.healthyThreshold) :
    waitHealthy hc probe now ceilingMs 1 = some (false, (Waiting.probed {} (probe 0)).read) := by
  refine run_leave ?_ 0
  obtain ⟨hp, hmet, _⟩ | ⟨_, ⟨_, he⟩ | ⟨hearly, _⟩⟩ :=
    waitPass_cases hc probe now (i64 (now 0 + ceilingMs)) {}
  · have := hgo hp
    have hone : (Waiting.probed {} true).consecutive = 1 := by decide
    omega
  · exact he
  · exact absurd hearly (by show ¬ now 1 < _; omega)

/-- One success required, and the first probe is one. -/
theorem waitHealthy_first_probe {ceilingMs : Int} (hone : hc.healthyThreshold = 1) (hp : probe 0 = true) :
    waitHealthy hc probe now ceilingMs 1 = some (true, Waiting.probed {} true) := by
  refine run_leave ?_ 0
  obtain ⟨_, _, he⟩ | ⟨hgo, _⟩ := waitPass_cases hc probe now (i64 (now 0 + ceilingMs)) {}
  · exact he
  · have hmore := hgo hp
    rw [hone] at hmore
    exact absurd hmore (by decide)

theorem deadlineFits_iff {start : Int} : DeadlineFits hc probe start ↔
    start + rolloutHealthCeilingMs hc ≤ i64Max ∨ hc.healthyThreshold = 1 ∧ probe 0 = true := by
  rw [rolloutHealthCeilingMs_eq]
  unfold DeadlineFits
  refine or_congr ?_ Iff.rfl
  omega

/-- A failed wait whose deadline fits is as long as its ceiling. -/
theorem ceiling_passed {ceilingMs : Int} (hceiling : 0 ≤ ceilingMs) (hstart : -i64Max - 1 ≤ now 0)
    (hfits : now 0 + ceilingMs ≤ i64Max) {fuel : Nat} {s : Waiting}
    (hrun : waitHealthy hc probe now ceilingMs fuel = some (false, s)) : ceilingMs ≤ now (s.readings - 1) - now 0 := by
  obtain ⟨hreadings, hlate⟩ := (waitHealthy_counts hrun).unhealthy rfl
  rw [i64_exact (by omega) hfits] at hlate
  change s.readings = s.probes + 1 at hreadings
  change now 0 + ceilingMs ≤ now s.probes at hlate
  rw [hreadings, Nat.add_sub_cancel]
  omega

/-- One whose deadline wraps gives up on its first pass, and the reading is too early. -/
theorem gives_up_early (clock : Clock) {ceilingMs : Int} (hceiling : ceilingMs ≤ i64Max)
    (hwrap : i64Max < clock.now 0 + ceilingMs) (hgo : probe 0 = true → 1 < hc.healthyThreshold) :
    ∃ s, waitHealthy hc probe clock.now ceilingMs 1 = some (false, s) ∧
      clock.now (s.readings - 1) - clock.now 0 < ceilingMs := by
  have hpast := wrapped_deadline (clock.inI64 0).2 hceiling hwrap
  have hnext := clock.mono _ _ (Nat.zero_le 1)
  refine ⟨_, waitHealthy_late (by omega) hgo, ?_⟩
  show clock.now 1 - clock.now 0 < ceilingMs
  have hlast := (clock.inI64 1).2
  omega

theorem unhealthy_iff (h : healthCheckSchema hc = true) (probe : Nat → Bool) (clock : Clock) :
    (∀ fuel s, waitHealthy hc probe clock.now (rolloutHealthCeilingMs hc) fuel = some (false, s) →
      rolloutHealthCeilingMs hc ≤ clock.now (s.readings - 1) - clock.now 0) ↔ DeadlineFits hc probe (clock.now 0) := by
  have hceiling := ceiling_bounds hc
  rw [deadlineFits_iff]
  constructor
  · intro hlong
    by_contra hnot
    rw [not_or] at hnot
    have hpos := (healthCheckSchema_pos h).2.2
    have hgo : probe 0 = true → 1 < hc.healthyThreshold := by
      intro hp
      have hone : hc.healthyThreshold ≠ 1 := fun hone => hnot.2 ⟨hone, hp⟩
      omega
    obtain ⟨s, hrun, hshort⟩ := gives_up_early clock hceiling.2 (by omega) hgo
    have := hlong 1 s hrun
    omega
  · intro hcase fuel s hrun
    obtain hsum | ⟨hone, hp⟩ := hcase
    · exact ceiling_passed (by omega) (clock.inI64 0).1 hsum hrun
    · -- the first pass has found the replica healthy
      have hother := run_unique hrun (waitHealthy_first_probe hone hp)
      simp at hother

/-- The last `k` of `n` answers, for a `k` that is a number without bound. -/
theorem le_streak_int_iff {k : Int} (h0 : 0 ≤ k) {n : Nat} :
    k ≤ streak probe n ↔ k ≤ n ∧ ∀ i : Nat, (n : Int) ≤ i + k → i < n → probe i = true := by
  obtain ⟨k, rfl⟩ := Int.eq_ofNat_of_zero_le h0
  rw [Int.ofNat_le, le_streak_iff, Int.ofNat_le]
  refine and_congr_right fun _ => forall_congr' fun i => ?_
  rw [← Int.natCast_add, Int.ofNat_le]

/-- For every accepted health check, every sequence of probe results and every clock that
    advances: a wait returns, and with `true` only right after the required successes in a
    row; its `false` comes once the ceiling has passed, and the ceiling is enough for the
    required probes at the interval, exactly when both fit 64 bits or the wrap does no harm. -/
theorem wait_sound_iff (h : healthCheckSchema hc = true) (probe : Nat → Bool) (clock : Clock) :
    WaitSound hc probe clock ↔ CeilingFits hc ∧ DeadlineFits hc probe (clock.now 0) := by
  have hthreshold := (healthCheckSchema_pos h).2.2
  constructor
  · intro hsound
    exact ⟨(enough_iff h).mp hsound.enough, (unhealthy_iff h probe clock).mp hsound.unhealthy⟩
  · intro ⟨hceiling, hdeadline⟩
    refine ⟨waitHealthy_ends hc probe clock _, ?_, (unhealthy_iff h probe clock).mpr hdeadline, (enough_iff h).mpr hceiling⟩
    intro fuel s hrun
    exact (le_streak_int_iff hthreshold.le).mp ((waitHealthy_counts hrun).healthy rfl)

/-- `step` ms more at each reading, up to the last `i64`. -/
def tick (step n : Nat) : Int := min (step * n : Nat) i64Max

theorem tick_inI64 (step n : Nat) : InI64 (tick step n) := by
  have hzero : -i64Max - 1 ≤ 0 ∧ 0 ≤ i64Max := by decide
  unfold InI64 tick
  omega

theorem tick_mono (step m n : Nat) (hmn : m ≤ n) : tick step m ≤ tick step n := by
  have := Nat.mul_le_mul_left step hmn
  unfold tick
  omega

theorem tick_advances {step : Nat} (hstep : 0 < step) (n : Nat) (hlast : tick step n < i64Max) :
    ∃ m, tick step n < tick step m := by
  refine ⟨n + 1, ?_⟩
  have hnext : step * (n + 1) = step * n + step := Nat.mul_succ step n
  unfold tick at hlast ⊢
  omega

def ticking (step : Nat) (hstep : 0 < step) : Clock := ⟨tick step, tick_inI64 step, tick_mono step, tick_advances hstep⟩

theorem wait_sound_plain : WaitSound plainCheck (fun n => n != 0) (ticking 2000 (by decide)) :=
  (wait_sound_iff (by decide) _ _).mpr ⟨.inl (by decide), .inl (by decide)⟩

/-- Every probe may take as long as it likes: the largest whole number of milliseconds that
    JavaScript counts to, for 128 successes at the default interval. -/
def patientCheck : HealthCheck where
  path := "/healthz"
  timeoutMs := 9007199254740991
  healthyThreshold := 128

/-- The product wraps, and 128 probes at 2 s are given 30 s. -/
theorem patient_check_cut_short : ¬ ∀ (hc : HealthCheck) (probe : Nat → Bool) (clock : Clock),
    healthCheckSchema hc = true → WaitSound hc probe clock := by
  intro hall
  have henough := (hall patientCheck (fun _ => true) (ticking 2000 (by decide)) (by decide)).enough
  exact absurd henough (by decide)

/-- A replica that passes every probe is given up after 15 of them. -/
example : (waitHealthy patientCheck (fun _ => true) (ticking 2000 (by decide)).now (rolloutHealthCeilingMs patientCheck)
    15).map (fun verdict => (verdict.1, verdict.2.probes)) = some (false, 15) := by decide

/-! ## A healthy replica is found healthy -/

/-- A round of the loop takes no longer than a probe's timeout and a sleep. -/
def Paced (hc : HealthCheck) (clock : Clock) : Prop :=
  ∀ n : Nat, clock.now n ≤ clock.now 0 + n * (hc.timeoutMs + hc.intervalMs)

/-- Where nothing wraps, a failed wait has made eight times the required probes. -/
theorem probes_of_unhealthy (h : healthCheckSchema hc = true) (hfits : probeMs hc ≤ i64Max) {clock : Clock}
    (hdeadline : DeadlineFits hc probe (clock.now 0)) (hpace : Paced hc clock) {fuel : Nat} {s : Waiting}
    (hrun : waitHealthy hc probe clock.now (rolloutHealthCeilingMs hc) fuel = some (false, s)) :
    8 * hc.healthyThreshold ≤ s.probes := by
  obtain ⟨hinterval, htimeout, _⟩ := healthCheckSchema_pos h
  have hlong := (unhealthy_iff h probe clock).mpr hdeadline fuel s hrun
  have hreadings : s.readings = s.probes + 1 := ((waitHealthy_counts hrun).unhealthy rfl).1
  have hceiling : probeMs hc ≤ rolloutHealthCeilingMs hc := by
    rw [((exactCeiling_iff h).mpr hfits).ceiling]
    omega
  rw [hreadings, Nat.add_sub_cancel] at hlong
  have hround := hpace s.probes
  have hwindow : 8 * hc.healthyThreshold * (hc.timeoutMs + hc.intervalMs) ≤ s.probes * (hc.timeoutMs + hc.intervalMs) := by
    have hproduct : probeMs hc = 8 * hc.healthyThreshold * (hc.timeoutMs + hc.intervalMs) := by
      unfold probeMs
      ring
    omega
  exact Int.le_of_mul_le_mul_right hwindow (by omega)

/-- Within 64 bits, a replica with the required successes in a row among its first eight
    times as many probes is found healthy, no later than there. -/
theorem steady_replica_healthy (h : healthCheckSchema hc = true) (hfits : probeMs hc ≤ i64Max) {clock : Clock}
    (hdeadline : DeadlineFits hc probe (clock.now 0)) (hpace : Paced hc clock) {n : Nat}
    (hn : n ≤ 8 * hc.healthyThreshold) (hmet : hc.healthyThreshold ≤ streak probe n) :
    ∃ fuel s, waitHealthy hc probe clock.now (rolloutHealthCeilingMs hc) fuel = some (true, s) ∧ s.probes ≤ n := by
  obtain ⟨hinterval, htimeout, hthreshold⟩ := healthCheckSchema_pos h
  have hmax : hc.healthyThreshold ≤ i64Max := by
    have hle : hc.healthyThreshold ≤ hc.healthyThreshold * hc.intervalMs := le_mul_of_one_le_right hthreshold.le hinterval
    exact hle.trans ((interval_le_probeMs h).trans hfits)
  obtain ⟨fuel, ⟨healthy, s⟩, hrun⟩ := waitHealthy_ends hc probe clock (rolloutHealthCeilingMs hc)
  have hfirst := waitHealthy_first hthreshold hmax hrun n
  cases healthy with
  | true =>
    refine ⟨fuel, s, hrun, ?_⟩
    by_contra hlate
    have := hfirst (.inl (Nat.lt_of_not_le hlate))
    omega
  | false =>
    have hmade := probes_of_unhealthy h hfits hdeadline hpace hrun
    have hle : n ≤ s.probes := by omega
    have := hfirst ((Nat.lt_or_eq_of_le hle).imp id fun he => ⟨rfl, he⟩)
    omega

/-! ## The waits of a rollout -/

/-- A wait is of an accepted health check, under that check's own ceiling. -/
def AcceptedWait : Op → Prop
  | .waitHealthy _ hc ceilingMs => healthCheckSchema hc = true ∧ ceilingMs = rolloutHealthCeilingMs hc
  | _ => True

variable {c : ServiceConfig}

theorem healthCheckSchema_of_service (h : serviceConfigSchema c = true) (hcheck : c.healthCheck = some hc) :
    healthCheckSchema hc = true := by
  simp only [serviceConfigSchema, Bool.and_eq_true] at h
  simpa [hcheck] using h.1.1.1.1.1.2

theorem uses_wait (h : serviceConfigSchema c = true) (hostPort : Option Int) :
    Uses AcceptedWait (awaitHealthy c hostPort).run := by
  unfold awaitHealthy gateOf
  cases hcheck : c.healthCheck with
  | none => trivial
  | some hc =>
    cases hostPort with
    | none => trivial
    | some port => exact ⟨⟨healthCheckSchema_of_service h hcheck, rfl⟩, fun _ => trivial⟩

theorem uses_waits_surge (h : serviceConfigSchema c = true) (s : RolloutState) :
    Uses AcceptedWait (surgeOne c s).run := by
  unfold surgeOne
  refine Uses.bindE (uses_hostPortFor fun _ => trivial) fun hostPort => ?_
  refine Uses.bindE ⟨trivial, fun _ => trivial⟩ fun _ => ?_
  refine Uses.bindE (uses_wait h hostPort) fun healthy => ?_
  split
  · refine Uses.bindE (uses_forWeb fun _ => ?_) fun _ => trivial
    exact Uses.bindE ⟨trivial, fun _ => trivial⟩ fun _ => ⟨trivial, fun _ => trivial⟩
  · refine Uses.bindE ?_ fun _ => trivial
    refine Uses.bindE ⟨trivial, fun _ => trivial⟩ fun _ => ?_
    refine Uses.bindE ⟨trivial, fun _ => trivial⟩ fun _ => ?_
    refine Uses.bindE ⟨trivial, fun _ => trivial⟩ fun _ => ?_
    exact uses_forWeb fun _ => ⟨trivial, fun _ => trivial⟩

theorem uses_waits_drain (s : RolloutState) (old : ManagedReplica) : Uses AcceptedWait (drainOne c s old).run := by
  unfold drainOne
  refine Uses.bindE (uses_forWeb fun _ => ?_) fun _ => ?_
  · refine Uses.bindE ⟨trivial, fun _ => trivial⟩ fun _ => ?_
    refine Uses.bindE ⟨trivial, fun _ => trivial⟩ fun _ => ?_
    split
    · exact ⟨trivial, fun _ => trivial⟩
    · trivial
  · refine Uses.bindE ⟨trivial, fun _ => trivial⟩ fun _ => ?_
    refine Uses.bindE ⟨trivial, fun _ => trivial⟩ fun _ => ?_
    exact ⟨trivial, fun _ => trivial⟩

/-- The waits of a rollout of an accepted service are those that `WaitSound` is about. -/
theorem uses_waits (h : serviceConfigSchema c = true) (current : List ManagedReplica) :
    Uses AcceptedWait (rolloutService c current).run := by
  unfold rolloutService
  refine Uses.bindE ⟨trivial, fun _ => trivial⟩ fun _ => ?_
  have hloop := uses_rolloutLoop_of (uses_waits_surge h) (fun s old _ _ => uses_waits_drain s old)
    (.init c current) fun r hr => (List.mem_filter.mp hr : r ∈ current ∧ replicaNeedsReplace r c = true)
  refine Uses.bindE hloop fun converged => ?_
  split
  · exact uses_forWeb fun _ => ⟨trivial, fun _ => trivial⟩
  · trivial

end LaunchPad.Agent.Health
