/-
  LaunchPad.Lib.Walk — walks on the natural numbers by unit steps: a rule says of each
  number whether the walk goes up, goes down or stays.

  A rule is graded when what lies below a number it goes up from goes up too, when it does
  not go up for ever, and when it does not go down from zero.

  Proved:
  - `settles_iff`: a walk under a graded rule comes to rest exactly when it does not fall
    into a pair of neighbours that send it to each other; it falls into the pair above `k`
    when every number from there up to its start goes down.
-/
import Mathlib.Data.Nat.Find
import Mathlib.Order.Lattice

namespace LaunchPad.Lib.Walk

inductive Dir where
  | up
  | down
  | stay
  deriving DecidableEq, Repr

def Dir.next : Dir → Nat → Nat
  | .up, n => n + 1
  | .down, n => n - 1
  | .stay, n => n

variable {rule : Nat → Dir} {f : Nat → Nat}

/-- The walk takes the step its rule says. -/
def Follows (rule : Nat → Dir) (f : Nat → Nat) : Prop := ∀ i, f (i + 1) = (rule (f i)).next (f i)

/-- From some point on the walk stays. -/
def Settles (rule : Nat → Dir) (f : Nat → Nat) : Prop := ∃ i, ∀ j, i ≤ j → rule (f j) = .stay

structure Graded (rule : Nat → Dir) : Prop where
  below : ∀ {m n}, m ≤ n → rule n = .up → rule m = .up
  bounded : ∃ n, rule n ≠ .up
  floor : rule 0 ≠ .down

/-- A pair of neighbours that send a walk to each other, with all the numbers between the
    pair and the walk's start going down. -/
def Trap (rule : Nat → Dir) (start : Nat) : Prop :=
  ∃ k, rule k = .up ∧ ∀ m, k < m → m ≤ max start (k + 1) → rule m = .down

/-! ## The steps -/

theorem Follows.up (h : Follows rule f) {i : Nat} (hi : rule (f i) = .up) : f (i + 1) = f i + 1 := by
  rw [h i, hi]
  rfl

theorem Follows.down (h : Follows rule f) {i : Nat} (hi : rule (f i) = .down) : f (i + 1) = f i - 1 := by
  rw [h i, hi]
  rfl

theorem Follows.stay (h : Follows rule f) {i : Nat} (hi : rule (f i) = .stay) : f (i + 1) = f i := by
  rw [h i, hi]
  rfl

/-- A walk that stays once stays for ever. -/
theorem Follows.settles (h : Follows rule f) {i : Nat} (hi : rule (f i) = .stay) : Settles rule f := by
  refine ⟨i, fun j hj => ?_⟩
  induction j, hj using Nat.le_induction with
  | base => exact hi
  | succ j _ ih =>
    rw [h.stay ih]
    exact ih

/-- Below the first number that does not go up, a walk climbs to it. -/
theorem Follows.climbs (h : Follows rule f) {b : Nat} (hb : ∀ n, n < b → rule n = .up) (d : Nat) {i : Nat}
    (hi : f i + d = b) : ∃ j, f j = b := by
  induction d generalizing i with
  | zero => exact ⟨i, by omega⟩
  | succ d ih =>
    have hup := h.up (hb (f i) (by omega))
    exact ih (i := i + 1) (by omega)

/-- From above, a walk descends to the first number that does not go down. -/
theorem Follows.descends (h : Follows rule f) {b m : Nat} (hb : ∀ n, b ≤ n → rule n ≠ .up) (hm : b ≤ m)
    (hstop : rule m ≠ .down) (d : Nat) {i : Nat} (hi : f i = m + d) : Settles rule f := by
  induction d generalizing i with
  | zero =>
    cases hr : rule (f i) with
    | up => exact absurd hr (hb _ (by omega))
    | down =>
      rw [show f i = m by omega] at hr
      exact absurd hr hstop
    | stay => exact h.settles hr
  | succ d ih =>
    cases hr : rule (f i) with
    | up => exact absurd hr (hb _ (by omega))
    | down =>
      have hdown := h.down hr
      exact ih (i := i + 1) (by omega)
    | stay => exact h.settles hr

/-! ## Coming to rest -/

/-- In a trap a walk never rests. -/
theorem Follows.restless (hg : Graded rule) (h : Follows rule f) (htrap : Trap rule (f 0)) : ¬ Settles rule f := by
  obtain ⟨k, hk, hdown⟩ := htrap
  have hmoves : ∀ n, n ≤ max (f 0) (k + 1) → rule n ≠ .stay := by
    intro n hn
    by_cases hlow : n ≤ k
    · simp [hg.below hlow hk]
    · simp [hdown n (by omega) hn]
  have hbound : ∀ i, f i ≤ max (f 0) (k + 1) := by
    intro i
    induction i with
    | zero => exact le_max_left _ _
    | succ i ih =>
      by_cases hlow : f i ≤ k
      · have := h.up (hg.below hlow hk)
        omega
      · have := h.down (hdown _ (by omega) ih)
        omega
  intro ⟨i, hi⟩
  exact hmoves _ (hbound i) (hi i (le_refl i))

theorem settles_iff (hg : Graded rule) (h : Follows rule f) : Settles rule f ↔ ¬ Trap rule (f 0) := by
  constructor
  · intro hs htrap
    exact h.restless hg htrap hs
  intro htrap
  -- the numbers that go up are those below the first one that does not
  have hlow : ∀ n, n < Nat.find hg.bounded → rule n = .up := fun n hn => not_not.mp (Nat.find_min hg.bounded hn)
  have hhigh : ∀ n, Nat.find hg.bounded ≤ n → rule n ≠ .up := fun n hn hup => Nat.find_spec hg.bounded (hg.below hn hup)
  generalize Nat.find hg.bounded = b at hlow hhigh
  have hstop : ∃ m, b ≤ m ∧ m ≤ max (f 0) b ∧ rule m ≠ .down := by
    cases b with
    | zero => exact ⟨0, le_refl _, Nat.zero_le _, hg.floor⟩
    | succ k =>
      by_contra hno
      push Not at hno
      exact htrap ⟨k, hlow k (by omega), hno⟩
  obtain ⟨m, hbm, hm, hdown⟩ := hstop
  by_cases hstart : f 0 < b
  · obtain ⟨j, hj⟩ := h.climbs hlow (b - f 0) (i := 0) (by omega)
    exact h.descends hhigh hbm hdown 0 (i := j) (by omega)
  · exact h.descends hhigh hbm hdown (f 0 - m) (i := 0) (by omega)

end LaunchPad.Lib.Walk
