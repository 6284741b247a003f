/-
  LaunchPad.Lib.Scan — looking for the first hit of a predicate along evenly spaced numbers,
  a given number of steps up, or down to a floor.

  Proved:
  - `up_spec`, `up_none`, `down_spec`, `down_none`: what a scan finds, and when it finds
    nothing.
  - `up_eq_some`, `up_eq_none`, `down_eq_some`, `down_eq_none`: over the multiples of the step,
    a scan is exact for its window.
  - `down_congr`: a downward scan depends on the predicate between its floor and its start.
-/
import Mathlib.Order.Bounds.Basic
import Mathlib.Tactic.Linarith

namespace LaunchPad.Lib.Scan

variable (p : Int → Bool) (step : Int)

/-- The first hit of `n` numbers, from `t` up. -/
def up : Nat → Int → Option Int
  | 0, _ => none
  | n + 1, t => if p t then some t else up n (t + step)

/-- The first hit of `n` numbers above the floor, from `t` down. -/
def down (floor : Int) : Nat → Int → Option Int
  | 0, _ => none
  | n + 1, t => if t > floor then if p t then some t else down floor n (t - step) else none

variable {p step}

/-- Between a number and the next of the row lies none of the row. -/
theorem step_gap {t u : Int} (hd : step ∣ u - t) (h : t < u) : t + step ≤ u := by
  have := Int.le_of_dvd (by omega) hd
  omega

theorem dvd_shift {t u : Int} (hd : step ∣ u - t) : step ∣ u - (t + step) := by
  rw [← Int.sub_sub]
  exact Int.dvd_sub hd (Int.dvd_refl _)

/-! ## Up -/

theorem up_none {n : Nat} {t : Int} (h : up p step n t = none) {u : Int} (hd : step ∣ u - t) (hlow : t ≤ u)
    (hhigh : u < t + n * step) : p u = false := by
  induction n generalizing t with
  | zero => simp at hhigh; omega
  | succ n ih =>
    unfold up at h
    split at h
    · cases h
    · rename_i hp
      by_cases he : u = t
      · rw [he]
        simpa using hp
      · refine ih h (dvd_shift hd) (step_gap hd (by omega)) ?_
        push_cast at hhigh
        linarith

theorem up_spec (hs : 0 < step) {n : Nat} {t f : Int} (h : up p step n t = some f) :
    p f = true ∧ step ∣ f - t ∧ t ≤ f ∧ f < t + n * step ∧ ∀ u, step ∣ u - t → t ≤ u → u < f → p u = false := by
  induction n generalizing t with
  | zero => cases h
  | succ n ih =>
    have hpos : 0 ≤ (n : Int) * step := Int.mul_nonneg (by omega) (by omega)
    unfold up at h
    push_cast
    split at h
    · rename_i hp
      cases h
      exact ⟨hp, by simp, Int.le_refl _, by linarith, fun u _ h1 h2 => by omega⟩
    · rename_i hp
      obtain ⟨hf, hd, hlow, hhigh, hfirst⟩ := ih h
      refine ⟨hf, ?_, by omega, by linarith, fun u hu h1 h2 => ?_⟩
      · have := Int.dvd_add hd (Int.dvd_refl step)
        rwa [show f - (t + step) + step = f - t by omega] at this
      · by_cases he : u = t
        · rw [he]
          simpa using hp
        · exact hfirst u (dvd_shift hu) (step_gap hu (by omega)) h2

/-! ## Down -/

section Down

variable {floor : Int}

theorem down_none {n : Nat} {t : Int} (h : down p step floor n t = none) (hn : t ≤ floor + n * step) {u : Int}
    (hd : step ∣ t - u) (hlow : floor < u) (hhigh : u ≤ t) : p u = false := by
  induction n generalizing t with
  | zero => simp at hn; omega
  | succ n ih =>
    unfold down at h
    rw [if_pos (by omega)] at h
    split at h
    · cases h
    · rename_i hp
      by_cases he : u = t
      · rw [he]
        simpa using hp
      · push_cast at hn
        have hgap := step_gap hd (by omega)
        refine ih h (by linarith) ?_ (by omega)
        rw [show t - step - u = t - u - step by omega]
        exact Int.dvd_sub hd (Int.dvd_refl _)

theorem down_spec (hs : 0 < step) {n : Nat} {t f : Int} (h : down p step floor n t = some f) :
    p f = true ∧ step ∣ t - f ∧ floor < f ∧ f ≤ t ∧ ∀ u, step ∣ t - u → f < u → u ≤ t → p u = false := by
  induction n generalizing t with
  | zero => cases h
  | succ n ih =>
    unfold down at h
    split at h
    · rename_i hfloor
      split at h
      · rename_i hp
        cases h
        exact ⟨hp, by simp, hfloor, Int.le_refl _, fun u _ h1 h2 => by omega⟩
      · rename_i hp
        obtain ⟨hf, hd, hlow, hhigh, hfirst⟩ := ih h
        refine ⟨hf, ?_, hlow, by omega, fun u hu h1 h2 => ?_⟩
        · have := Int.dvd_add hd (Int.dvd_refl step)
          rwa [show t - step - f + step = t - f by omega] at this
        · by_cases he : u = t
          · rw [he]
            simpa using hp
          · have hgap := step_gap hu (by omega)
            refine hfirst u ?_ h1 (by omega)
            rw [show t - step - u = t - u - step by omega]
            exact Int.dvd_sub hu (Int.dvd_refl _)
    · cases h

theorem down_congr {q : Int → Bool} {n : Nat} {t : Int} (hs : 0 ≤ step) (h : ∀ u, floor < u → u ≤ t → p u = q u) :
    down p step floor n t = down q step floor n t := by
  induction n generalizing t with
  | zero => rfl
  | succ n ih =>
    unfold down
    split
    · rw [h t (by omega) (Int.le_refl _), ih fun u hlow hhigh => h u hlow (by omega)]
    · rfl

end Down

/-! ## Over the multiples of the step -/

section Aligned

variable (p step)

/-- The hits among the multiples of the step that lie above `low` and not above `high`. -/
def hits (low high : Int) : Set Int := {u | step ∣ u ∧ p u = true ∧ low < u ∧ u ≤ high}

variable {p step}

theorem floor_le (hs : 0 < step) (a : Int) : a / step * step ≤ a ∧ a < a / step * step + step := by
  have hdiv := Int.mul_ediv_add_emod a step
  have := Int.emod_nonneg a (show step ≠ 0 by omega)
  have := Int.emod_lt_of_pos a hs
  rw [Int.mul_comm] at hdiv
  omega

theorem floor_dvd (a : Int) : step ∣ a / step * step := Int.dvd_mul_left _ _

/-- A multiple up to a number is one up to the number's floor. -/
theorem le_floor (hs : 0 < step) {u a : Int} (hu : step ∣ u) (h : u ≤ a) : u ≤ a / step * step := by
  have hfloor := floor_le hs a
  by_contra hlt
  have := step_gap (Int.dvd_sub hu (floor_dvd a)) (Int.not_le.mp hlt)
  omega

variable {n : Nat} {low high t : Int}

theorem up_least (hs : 0 < step) (h : up p step n (low / step * step + step) = some t) :
    IsLeast (hits p step low (low + n * step)) t := by
  obtain ⟨hp, hd, hge, hlt, hfirst⟩ := up_spec hs h
  obtain ⟨hfloor, hnext⟩ := floor_le hs low
  have hstart : step ∣ low / step * step + step := Int.dvd_add (floor_dvd low) (Int.dvd_refl _)
  have hdt : step ∣ t := by
    rw [show t = t - (low / step * step + step) + (low / step * step + step) by omega]
    exact Int.dvd_add hd hstart
  refine ⟨⟨hdt, hp, by omega, ?_⟩, ?_⟩
  · -- The last multiple looked at is the window's.
    have hend : step ∣ low / step * step + n * step := Int.dvd_add (floor_dvd low) (Int.dvd_mul_left _ _)
    by_contra hgt
    have := step_gap (Int.dvd_sub hdt hend) (by omega)
    omega
  · rintro u ⟨hu, hpu, hgt, _⟩
    by_contra hlt'
    have hfrom := step_gap (Int.dvd_sub hu (floor_dvd low)) (show low / step * step < u by omega)
    rw [hfirst u (Int.dvd_sub hu hstart) hfrom (by omega)] at hpu
    cases hpu

theorem up_empty (hs : 0 < step) (h : up p step n (low / step * step + step) = none) :
    hits p step low (low + n * step) = ∅ := by
  rw [Set.eq_empty_iff_forall_notMem]
  rintro u ⟨hu, hpu, hgt, hle⟩
  obtain ⟨hfloor, hnext⟩ := floor_le hs low
  have hstart : step ∣ low / step * step + step := Int.dvd_add (floor_dvd low) (Int.dvd_refl _)
  have hfrom := step_gap (Int.dvd_sub hu (floor_dvd low)) (show low / step * step < u by omega)
  rw [up_none h (Int.dvd_sub hu hstart) hfrom (by omega)] at hpu
  cases hpu

theorem down_greatest (hs : 0 < step) (h : down p step low n (high / step * step) = some t) :
    IsGreatest (hits p step low high) t := by
  obtain ⟨hp, hd, hlow, hle, hfirst⟩ := down_spec hs h
  have hfloor := (floor_le hs high).1
  refine ⟨⟨?_, hp, hlow, by omega⟩, ?_⟩
  · rw [show t = high / step * step - (high / step * step - t) by omega]
    exact Int.dvd_sub (floor_dvd high) hd
  · rintro u ⟨hu, hpu, _, hle'⟩
    by_contra hlt
    rw [hfirst u (Int.dvd_sub (floor_dvd high) hu) (by omega) (le_floor hs hu hle')] at hpu
    cases hpu

/-- Enough passes for the distance to the floor. -/
theorem down_empty (hs : 0 < step) (hn : high ≤ low + n * step) (h : down p step low n (high / step * step) = none) :
    hits p step low high = ∅ := by
  rw [Set.eq_empty_iff_forall_notMem]
  rintro u ⟨hu, hpu, hgt, hle⟩
  have hfloor := (floor_le hs high).1
  rw [down_none h (by omega) (Int.dvd_sub (floor_dvd high) hu) hgt (le_floor hs hu hle)] at hpu
  cases hpu

theorem up_eq_some (hs : 0 < step) :
    up p step n (low / step * step + step) = some t ↔ IsLeast (hits p step low (low + n * step)) t := by
  refine ⟨up_least hs, fun h => ?_⟩
  cases hr : up p step n (low / step * step + step) with
  | none =>
    have := h.1
    rw [up_empty hs hr] at this
    cases this
  | some u => rw [(up_least hs hr).unique h]

theorem up_eq_none (hs : 0 < step) :
    up p step n (low / step * step + step) = none ↔ hits p step low (low + n * step) = ∅ := by
  refine ⟨up_empty hs, fun h => ?_⟩
  cases hr : up p step n (low / step * step + step) with
  | none => rfl
  | some u =>
    have := (up_least hs hr).1
    rw [h] at this
    cases this

theorem down_eq_some (hs : 0 < step) (hn : high ≤ low + n * step) :
    down p step low n (high / step * step) = some t ↔ IsGreatest (hits p step low high) t := by
  refine ⟨down_greatest hs, fun h => ?_⟩
  cases hr : down p step low n (high / step * step) with
  | none =>
    have := h.1
    rw [down_empty hs hn hr] at this
    cases this
  | some u => rw [(down_greatest hs hr).unique h]

theorem down_eq_none (hs : 0 < step) (hn : high ≤ low + n * step) :
    down p step low n (high / step * step) = none ↔ hits p step low high = ∅ := by
  refine ⟨down_empty hs hn, fun h => ?_⟩
  cases hr : down p step low n (high / step * step) with
  | none => rfl
  | some u =>
    have := (down_greatest hs hr).1
    rw [h] at this
    cases this

end Aligned

end LaunchPad.Lib.Scan
