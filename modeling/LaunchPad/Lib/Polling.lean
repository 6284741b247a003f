/-
  LaunchPad.Lib.Polling — a loop that polls: it makes passes until one leaves it, and asks
  for a number of successes in a row.

  `run` is the loop, for a bounded number of passes. `streak` is the number of successes
  just before a point of a sequence of answers.

  Proved:
  - `run_spec`: what holds of the value a loop leaves with, from an invariant of its passes.
  - `run_ends`: a loop whose passes lower a measure leaves.
  - `run_mono`, `run_unique`: the bound does not decide the value.
  - `le_streak_iff`: a streak of `k` is `k` successes with no failure among them.
-/
import Mathlib.Order.Basic

namespace LaunchPad.Lib.Polling

/-! ## The loop -/

/-- What one pass does: leave the loop with a value, or go round. -/
inductive Pass (σ α : Type) where
  | leave (value : α)
  | again (s : σ)

section Loop

variable {σ α : Type}

/-- The loop, for at most `fuel` passes. -/
def run (body : σ → Pass σ α) : Nat → σ → Option α
  | 0, _ => none
  | fuel + 1, s =>
    match body s with
    | .leave a => some a
    | .again s => run body fuel s

variable {body : σ → Pass σ α} {s : σ} {a : α}

theorem run_leave (h : body s = .leave a) (fuel : Nat) : run body (fuel + 1) s = some a := by
  simp [run, h]

theorem run_again {s' : σ} (h : body s = .again s') (fuel : Nat) : run body (fuel + 1) s = run body fuel s' := by
  simp [run, h]

/-- An invariant of the passes gives what holds on leaving. -/
theorem run_spec {I : σ → Prop} {Q : α → Prop} (hleave : ∀ s a, I s → body s = .leave a → Q a)
    (hagain : ∀ s s', I s → body s = .again s' → I s') {fuel : Nat} (hs : I s)
    (h : run body fuel s = some a) : Q a := by
  induction fuel generalizing s with
  | zero => simp [run] at h
  | succ fuel ih =>
    cases hb : body s with
    | leave a' =>
      rw [run_leave hb, Option.some.injEq] at h
      rw [← h]
      exact hleave s a' hs hb
    | again s' =>
      rw [run_again hb] at h
      exact ih (hagain s s' hs hb) h

/-- Each pass that goes round lowers the measure, so the loop leaves. -/
theorem run_ends {μ : σ → Nat} (hagain : ∀ s s', body s = .again s' → μ s' < μ s) {fuel : Nat} (hfuel : μ s < fuel) :
    ∃ a, run body fuel s = some a := by
  induction fuel generalizing s with
  | zero => omega
  | succ fuel ih =>
    cases hb : body s with
    | leave a => exact ⟨a, run_leave hb fuel⟩
    | again s' =>
      have hlower := hagain s s' hb
      rw [run_again hb]
      exact ih (by omega)

theorem run_mono {fuel more : Nat} (hle : fuel ≤ more) (h : run body fuel s = some a) : run body more s = some a := by
  induction fuel generalizing s more with
  | zero => simp [run] at h
  | succ fuel ih =>
    obtain ⟨more, rfl⟩ : ∃ n, more = n + 1 := ⟨more - 1, by omega⟩
    cases hb : body s with
    | leave a' => rwa [run_leave hb] at h ⊢
    | again s' =>
      rw [run_again hb] at h ⊢
      exact ih (by omega) h

theorem run_unique {fuel fuel' : Nat} {a' : α} (h : run body fuel s = some a) (h' : run body fuel' s = some a') :
    a = a' := by
  have hlong := run_mono (Nat.le_max_left fuel fuel') h
  have hlong' := run_mono (Nat.le_max_right fuel fuel') h'
  rw [hlong, Option.some.injEq] at hlong'
  exact hlong'

end Loop

/-! ## Successes in a row -/

/-- The successes in a row that end just before answer `n`. -/
def streak (answers : Nat → Bool) : Nat → Nat
  | 0 => 0
  | n + 1 => if answers n then streak answers n + 1 else 0

variable {answers : Nat → Bool} {n k : Nat}

theorem streak_success (h : answers n = true) : streak answers (n + 1) = streak answers n + 1 := by
  simp [streak, h]

theorem streak_failure (h : answers n = false) : streak answers (n + 1) = 0 := by
  simp [streak, h]

theorem le_streak_iff : k ≤ streak answers n ↔ k ≤ n ∧ ∀ i, n ≤ i + k → i < n → answers i = true := by
  induction n generalizing k with
  | zero =>
    simp only [streak, Nat.le_zero]
    constructor
    · intro hk
      exact ⟨hk, fun i _ hi => absurd hi (Nat.not_lt_zero i)⟩
    · intro h
      exact h.1
  | succ n ih =>
    by_cases hk : k = 0
    · subst hk
      simp only [Nat.zero_le, true_and, true_iff]
      intro i hle hlt
      omega
    obtain ⟨k, rfl⟩ : ∃ m, k = m + 1 := ⟨k - 1, by omega⟩
    cases hn : answers n with
    | false =>
      rw [streak_failure hn]
      constructor
      · intro h
        omega
      · intro h
        -- the answer just before the end is a failure
        have := h.2 n (by omega) (Nat.lt_succ_self n)
        simp [hn] at this
    | true =>
      rw [streak_success hn, Nat.succ_le_succ_iff, ih]
      constructor
      · intro h
        refine ⟨by omega, fun i hle hlt => ?_⟩
        by_cases hi : i = n
        · rw [hi, hn]
        · exact h.2 i (by omega) (by omega)
      · intro h
        exact ⟨by omega, fun i hle hlt => h.2 i (by omega) (by omega)⟩

end LaunchPad.Lib.Polling
