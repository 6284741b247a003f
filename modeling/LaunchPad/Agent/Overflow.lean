/-
  LaunchPad.Agent.Overflow — the agent's 64-bit arithmetic on the lengths and counts of a
  rollout (`agent-rust/src/types.rs` `parse_duration_ms`, `health.rs`
  `rollout_health_ceiling_ms`, `reconcile.rs` `rollout_service`), beside the CLI's doubles
  (`shared/src/health.ts` `parseDurationMs`).

  As built: the schemas bound a duration's digits and the counts by their shape alone. A
  duration may have any number of digits and a count any size a double has, and a release
  build of the agent wraps.

  Proved:
  - `arithmetic_exact_iff`: the two sides agree on a duration and nothing wraps exactly when
    the duration is of numbers that both sides have, and the ceiling, the drain timeout and
    the surge limit are within 64 bits.
  - `exact_below`: so it is for a duration below 2^53 ms and a rollout with lengths and
    counts of at most 9 digits.
-/
import LaunchPad.Agent.Wire
import Mathlib.Algebra.Order.Ring.Int

namespace LaunchPad.Agent

open Lib

/-- Within 64 bits. -/
def InI64 (x : Int) : Prop := -i64Max - 1 ≤ x ∧ x ≤ i64Max

theorem i64_bounds (x : Int) : InI64 (i64 x) := ⟨i64_ge x, i64_le x⟩

theorem i64_of_nonneg {x : Int} (h : 0 ≤ x) : i64 x = x ↔ x ≤ i64Max := by
  constructor
  · intro he
    have := (i64_bounds x).2
    rwa [he] at this
  · exact i64_of_le h

/-- A duration's milliseconds, as numbers have no bound. -/
def durationMs (duration : String) : Int := (durationDigits duration * durationUnit duration : Nat)

theorem durationMs_nonneg (t : String) : 0 ≤ durationMs t := Int.natCast_nonneg _

/-- What a rollout waits for a surged replica at most, as numbers have no bound. -/
def probeMs (hc : HealthCheck) : Int := (hc.timeoutMs + hc.intervalMs) * hc.healthyThreshold * 8

/-! ## Exact arithmetic -/

/-- Both sides have the same length for a duration, and it is reached without a wrap. -/
structure SameDuration (t : String) : Prop where
  agrees : DurationAgrees t
  exact : i64 (durationMs t) = durationMs t

/-- No step of `rollout_health_ceiling_ms` wraps. -/
structure ExactCeiling (hc : HealthCheck) : Prop where
  sum : i64 (hc.timeoutMs + hc.intervalMs) = hc.timeoutMs + hc.intervalMs
  probes : i64 ((hc.timeoutMs + hc.intervalMs) * hc.healthyThreshold) =
    (hc.timeoutMs + hc.intervalMs) * hc.healthyThreshold
  exact : i64 (probeMs hc) = probeMs hc
  ceiling : rolloutHealthCeilingMs hc = max 30000 (probeMs hc)

/-- The drain sleep and the surge limit are those of exact arithmetic. -/
structure ExactRollout (c : ServiceConfig) : Prop where
  drain : drainWaitMs c = max (durationMs c.rollout.drainTimeout) (drainFloorMs c)
  surge : surgeLimit c = c.replicas + c.rollout.maxSurge

def ExactArithmetic (t : String) (hc : HealthCheck) (c : ServiceConfig) : Prop :=
  SameDuration t ∧ ExactCeiling hc ∧ ExactRollout c

/-- Lengths and counts that fit. -/
structure WithinRange (t : String) (hc : HealthCheck) (c : ServiceConfig) : Prop where
  duration : DurationFits t
  ceiling : probeMs hc ≤ i64Max
  drain : durationMs c.rollout.drainTimeout ≤ i64Max
  surge : c.replicas + c.rollout.maxSurge ≤ i64Max

/-! ## When it is exact -/

variable {t : String} {hc : HealthCheck} {c : ServiceConfig}

theorem sameDuration_iff (h : durationMatches t = true) : SameDuration t ↔ DurationFits t := by
  constructor
  · intro hsame
    exact (duration_agrees_iff h).mp hsame.agrees
  · intro hfits
    exact ⟨(duration_agrees_iff h).mpr hfits, (i64_of_nonneg (durationMs_nonneg t)).mpr hfits.max⟩

/-- The numbers of an accepted health check. -/
theorem healthCheckSchema_pos (h : healthCheckSchema hc = true) :
    0 < hc.intervalMs ∧ 0 < hc.timeoutMs ∧ 0 < hc.healthyThreshold := by
  simp only [healthCheckSchema, Bool.and_eq_true, decide_eq_true_eq] at h
  exact ⟨h.1.1.2, h.1.2, h.2⟩

/-- Factors of at least one: the last product bounds the steps before it. -/
theorem exactCeiling_iff (h : healthCheckSchema hc = true) : ExactCeiling hc ↔ probeMs hc ≤ i64Max := by
  obtain ⟨hinterval, htimeout, hthreshold⟩ := healthCheckSchema_pos h
  have hsum : 0 < hc.timeoutMs + hc.intervalMs := by omega
  have hprobes : hc.timeoutMs + hc.intervalMs ≤ (hc.timeoutMs + hc.intervalMs) * hc.healthyThreshold :=
    le_mul_of_one_le_right hsum.le hthreshold
  have hnonneg : 0 ≤ probeMs hc := by
    unfold probeMs
    omega
  constructor
  · intro hexact
    exact (i64_of_nonneg hnonneg).mp hexact.exact
  · intro hmax
    have hlast : probeMs hc = (hc.timeoutMs + hc.intervalMs) * hc.healthyThreshold * 8 := rfl
    have hsum' : i64 (hc.timeoutMs + hc.intervalMs) = hc.timeoutMs + hc.intervalMs :=
      i64_of_le hsum.le (by omega)
    have hprobes' : i64 ((hc.timeoutMs + hc.intervalMs) * hc.healthyThreshold) =
        (hc.timeoutMs + hc.intervalMs) * hc.healthyThreshold := i64_of_le (by omega) (by omega)
    have hexact : i64 (probeMs hc) = probeMs hc := i64_of_le hnonneg hmax
    refine ⟨hsum', hprobes', hexact, ?_⟩
    unfold rolloutHealthCeilingMs
    rw [hsum', hprobes', ← hlast, hexact]

/-- A drain timeout over 64 bits is not waited for. -/
theorem drain_iff (h : durationMatches c.rollout.drainTimeout = true) :
    drainWaitMs c = max (durationMs c.rollout.drainTimeout) (drainFloorMs c) ↔
      durationMs c.rollout.drainTimeout ≤ i64Max := by
  have hle := parseDurationMs_le h
  have hfloor : drainFloorMs c ≤ i64Max := by
    unfold drainFloorMs remoteEdgeDrainFloorMs
    split <;> decide
  unfold drainWaitMs
  constructor
  · intro he
    omega
  · intro hmax
    have hdigits : (durationDigits c.rollout.drainTimeout : Int) ≤ i64Max := by
      refine le_trans ?_ hmax
      unfold durationMs
      rcases durationUnit_cases h with hunit | hunit | hunit
      · rw [hunit]
        omega
      · rw [hunit]
        omega
      · rw [hunit]
        omega
    unfold durationMs at hmax ⊢
    rw [parseDurationMs_eq h, if_pos hdigits, i64_of_le (Int.natCast_nonneg _) hmax]

theorem exactRollout_iff (h : serviceConfigSchema c = true) : ExactRollout c ↔
    durationMs c.rollout.drainTimeout ≤ i64Max ∧ c.replicas + c.rollout.maxSurge ≤ i64Max := by
  have hsized := serviceConfigSchema_sized h
  have hreplicas := hsized.replicas
  have hsurge := hsized.maxSurge
  have hlimit : surgeLimit c = c.replicas + c.rollout.maxSurge ↔ c.replicas + c.rollout.maxSurge ≤ i64Max :=
    i64_of_nonneg (by omega)
  have hdrain := drain_iff (serviceConfigSchema_rollout h).1
  constructor
  · intro hexact
    exact ⟨hdrain.mp hexact.drain, hlimit.mp hexact.surge⟩
  · intro ⟨hmax, hsum⟩
    exact ⟨hdrain.mpr hmax, hlimit.mpr hsum⟩

/-- For an accepted duration, health check and service the agent's arithmetic is exact, and
    the CLI's the same, exactly when the numbers are in range. -/
theorem arithmetic_exact_iff (ht : durationMatches t = true) (hhc : healthCheckSchema hc = true)
    (hconfig : serviceConfigSchema c = true) : ExactArithmetic t hc c ↔ WithinRange t hc c := by
  unfold ExactArithmetic
  rw [sameDuration_iff ht, exactCeiling_iff hhc, exactRollout_iff hconfig]
  constructor
  · intro ⟨hduration, hceiling, hdrain, hsurge⟩
    exact ⟨hduration, hceiling, hdrain, hsurge⟩
  · intro h
    exact ⟨h.duration, h.ceiling, h.drain, h.surge⟩

/-- Ordinary lengths and counts are in range. -/
theorem exact_below (ht : durationMs t < 2 ^ 53) (hdigits : durationDigits t < 2 ^ 53)
    (hprobes : (hc.timeoutMs + hc.intervalMs) * hc.healthyThreshold ≤ 10 ^ 18)
    (hdrain : durationMs c.rollout.drainTimeout < 2 ^ 53) (hsurge : c.replicas + c.rollout.maxSurge ≤ 2 * 10 ^ 9) :
    WithinRange t hc c := by
  have hms : durationDigits t * durationUnit t < 2 ^ 53 := by
    unfold durationMs at ht
    exact_mod_cast ht
  refine ⟨⟨Double.isDouble_of_lt hdigits, Double.isDouble_of_lt hms, ?_⟩, ?_, ?_, ?_⟩
  · unfold i64Max
    omega
  · unfold probeMs i64Max
    omega
  · unfold i64Max
    omega
  · unfold i64Max
    omega

/-! ### A duration of twenty digits -/

/-- A worker with the schema's defaults. -/
def plainWorker : ServiceConfig where
  project := "shop"
  service := "mail"
  image := "mail:1"
  cpu := 256
  memory := 512
  ingress := none

def plainCheck : HealthCheck where
  path := "/healthz"

theorem arithmetic_exact_plain : ExactArithmetic "20s" plainCheck plainWorker := by
  refine (arithmetic_exact_iff (by decide) (by decide) (by decide)).mpr ⟨⟨?_, ?_, ?_⟩, ?_, ?_, ?_⟩
  all_goals decide +kernel

/-- The CLI has 1e19 seconds, the agent none. -/
theorem long_duration_differs : ¬ ∀ (t : String) (hc : HealthCheck) (c : ServiceConfig), durationMatches t = true →
    healthCheckSchema hc = true → serviceConfigSchema c = true → ExactArithmetic t hc c := by
  intro hall
  have hsame := (hall "10000000000000000000s" plainCheck plainWorker (by decide) (by decide) (by decide)).1
  have hfits := (sameDuration_iff (by decide)).mp hsame
  exact absurd hfits.max (by decide +kernel)

end LaunchPad.Agent
