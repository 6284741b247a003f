/-
  LaunchPad.Lib.Double — whole numbers as IEEE 754 doubles: rounding to the nearest, ties to
  even, and the shortest decimal numeral that rounds back.

  A double has 53 bits of significand, so every whole number below 2^53 is one. Above, the
  shortest numeral of a double may be another number than the double itself.

  Proved:
  - `round_of_lt`: a number below 2^53 is its own double.
  - `le_round`, `double_le_round`: rounding stays at or above every power of two, and every
    double, that a number reaches.
  - `pow_dvd_round`: how many zeros a rounded number ends with in binary.
  - `round_shortest`, `shortest_of_lt`: the shortest numeral of a double rounds to it, and
    below 2^53 it is the number itself.
-/
import Mathlib.Data.Nat.Log
import Mathlib.Tactic.Ring

namespace LaunchPad.Lib.Double

/-- The distance between neighbouring doubles around a number, for numbers with 53 bits. -/
def ulp (n : Nat) : Nat := 2 ^ (n.log2 - 52)

/-- The nearest double; of two, the one with an even significand. -/
def round (n : Nat) : Nat :=
  let q := n / ulp n
  let r := n % ulp n
  if 2 * r < ulp n ∨ (2 * r = ulp n ∧ q % 2 = 0) then q * ulp n else (q + 1) * ulp n

/-- Finite doubles are below two to this power. -/
def maxExponent : Nat := 1024

/-- The double of a number, unless it is too large for a finite one. -/
def ofNat (n : Nat) : Option Nat := if round n < 2 ^ maxExponent then some (round n) else none

/-- A whole number that is a double. -/
def IsDouble (n : Nat) : Prop := ofNat n = some n

instance (n : Nat) : Decidable (IsDouble n) := inferInstanceAs (Decidable (_ = _))

/-! ## Rounding -/

theorem ulp_pos (n : Nat) : 0 < ulp n := Nat.two_pow_pos _

theorem round_of_lt {n : Nat} (h : n < 2 ^ 53) : round n = n := by
  have hlog : n.log2 ≤ 52 := by
    by_cases hn : n = 0
    · subst hn
      decide
    · have := (Nat.log2_lt hn).mpr h
      omega
  have hulp : ulp n = 1 := by
    unfold ulp
    rw [Nat.sub_eq_zero_of_le hlog]
    rfl
  unfold round
  simp [hulp, Nat.mod_one]

theorem floor_le_round (n : Nat) : n / ulp n * ulp n ≤ round n := by
  unfold round
  dsimp only
  split
  · exact Nat.le_refl _
  · exact Nat.mul_le_mul_right _ (Nat.le_succ _)

/-- Both neighbours are at least the power of two below the number. -/
theorem le_round {n e : Nat} (he : 52 ≤ e) (h : 2 ^ e ≤ n) : 2 ^ e ≤ round n := by
  have hn : n ≠ 0 := by
    have := Nat.two_pow_pos e
    omega
  have hlog : e ≤ n.log2 := (Nat.le_log2 hn).mpr h
  have hself : 2 ^ n.log2 ≤ n := Nat.log2_self_le hn
  have hsplit : 2 ^ n.log2 = 2 ^ 52 * ulp n := by
    unfold ulp
    rw [← Nat.pow_add]
    congr 1
    omega
  have hq : 2 ^ 52 ≤ n / ulp n := by
    rw [Nat.le_div_iff_mul_le (ulp_pos n), ← hsplit]
    exact hself
  calc 2 ^ e ≤ 2 ^ n.log2 := Nat.pow_le_pow_right (by decide) hlog
    _ = 2 ^ 52 * ulp n := hsplit
    _ ≤ n / ulp n * ulp n := Nat.mul_le_mul_right _ hq
    _ ≤ round n := floor_le_round n

theorem round_lt {n : Nat} (h : round n < 2 ^ 53) : round n = n := by
  by_contra hne
  have hlarge : 2 ^ 53 ≤ n := by
    by_contra hlt
    exact hne (round_of_lt (by omega))
  have := le_round (by decide) hlarge
  omega

/-- Rounding ends on a multiple of the distance between neighbours. -/
theorem ulp_dvd_round (n : Nat) : ulp n ∣ round n := by
  unfold round
  dsimp only
  split
  · exact Nat.dvd_mul_left _ _
  · exact Nat.dvd_mul_left _ _

theorem round_of_dvd {n : Nat} (h : ulp n ∣ n) : round n = n := by
  have hr : n % ulp n = 0 := Nat.mod_eq_zero_of_dvd h
  have hpos := ulp_pos n
  unfold round
  dsimp only
  rw [hr, if_pos (Or.inl (by omega)), Nat.div_mul_cancel h]

theorem pow_dvd_ulp {n e : Nat} (h : 2 ^ e ≤ n) : 2 ^ (e - 52) ∣ ulp n := by
  have hn : n ≠ 0 := by
    have := Nat.two_pow_pos e
    omega
  have hlog : e ≤ n.log2 := (Nat.le_log2 hn).mpr h
  exact Nat.pow_dvd_pow 2 (by omega)

theorem pow_dvd_round {n e : Nat} (h : 2 ^ e ≤ n) : 2 ^ (e - 52) ∣ round n := (pow_dvd_ulp h).trans (ulp_dvd_round n)

theorem ulp_eq {n e : Nat} (hlow : 2 ^ e ≤ n) (hhigh : n < 2 ^ (e + 1)) : ulp n = 2 ^ (e - 52) := by
  have hn : n ≠ 0 := by
    have := Nat.two_pow_pos e
    omega
  have hlog : e ≤ n.log2 := (Nat.le_log2 hn).mpr hlow
  have hlog' : n.log2 < e + 1 := (Nat.log2_lt hn).mpr hhigh
  unfold ulp
  congr 1
  omega

/-- Rounding does not pass a double. -/
theorem double_le_round {d n : Nat} (hd : round d = d) (h : d ≤ n) : d ≤ round n := by
  by_cases hsmall : n < 2 ^ 53
  · rw [round_of_lt hsmall]
    exact h
  have hn : n ≠ 0 := by omega
  have hlog : 53 ≤ n.log2 := (Nat.le_log2 hn).mpr (by omega)
  by_cases hsame : 2 ^ n.log2 ≤ d
  · -- the two have the same neighbours' distance, and the double is one of its multiples
    have hulp : ulp d = ulp n := ulp_eq hsame (h.trans_lt Nat.lt_log2_self)
    have hdvd : ulp n ∣ d := by
      rw [← hulp, ← hd]
      exact hd.symm ▸ ulp_dvd_round d
    calc d = d / ulp n * ulp n := (Nat.div_mul_cancel hdvd).symm
      _ ≤ n / ulp n * ulp n := Nat.mul_le_mul_right _ (Nat.div_le_div_right h)
      _ ≤ round n := floor_le_round n
  · have := le_round (by omega) (Nat.log2_self_le hn)
    omega

theorem ofNat_eq_some {n m : Nat} : ofNat n = some m ↔ round n = m ∧ m < 2 ^ maxExponent := by
  unfold ofNat
  split
  · rename_i h
    constructor
    · rintro ⟨⟩
      exact ⟨rfl, h⟩
    · rintro ⟨rfl, _⟩
      rfl
  · rename_i h
    constructor
    · intro hnone
      cases hnone
    · rintro ⟨rfl, hm⟩
      exact absurd hm h

theorem isDouble_iff {n : Nat} : IsDouble n ↔ round n = n ∧ n < 2 ^ maxExponent := ofNat_eq_some

theorem isDouble_of_lt {n : Nat} (h : n < 2 ^ 53) : IsDouble n :=
  isDouble_iff.mpr ⟨round_of_lt h, h.trans (Nat.pow_lt_pow_right (by decide) (by decide))⟩

/-! ## The shortest numeral -/

/-- The multiple of `10 ^ t` that is nearest to a double among those that round to it; of
    two, the one whose digits before the zeros are even. -/
def multiple (n t : Nat) : Option Nat :=
  let unit := 10 ^ t
  let below := n / unit * unit
  let above := below + unit
  let fits := fun m => decide (0 < m ∧ round m = n)
  if fits below then
    if fits above ∧ (above - n < n - below ∨ (above - n = n - below ∧ n / unit % 2 = 1)) then some above else some below
  else if fits above then some above else none

/-- With as many zeros at the end as there can be, from that many on down. -/
def shortestFrom (n : Nat) : Nat → Nat
  | 0 => n
  | t + 1 => (multiple n (t + 1)).getD (shortestFrom n t)

/-- The numeral with the fewest digits that rounds to the double, for numbers of at most 21
    digits. -/
def shortest (n : Nat) : Nat := shortestFrom n 21

theorem multiple_round {n t m : Nat} (h : multiple n t = some m) : round m = n := by
  unfold multiple at h
  dsimp only at h
  split at h
  · rename_i hbelow
    split at h
    · rename_i habove
      cases h
      exact (of_decide_eq_true habove.1).2
    · cases h
      exact (of_decide_eq_true hbelow).2
  · split at h
    · rename_i habove
      cases h
      exact (of_decide_eq_true habove).2
    · cases h

theorem round_shortestFrom {n : Nat} (h : round n = n) (t : Nat) : round (shortestFrom n t) = n := by
  induction t with
  | zero => exact h
  | succ t ih =>
    rw [shortestFrom]
    cases hm : multiple n (t + 1) with
    | none => exact ih
    | some m => exact multiple_round hm

theorem round_shortest {n : Nat} (h : round n = n) : round (shortest n) = n := round_shortestFrom h 21

theorem shortest_of_lt {n : Nat} (h : n < 2 ^ 53) : shortest n = n := by
  have hback := round_shortest (round_of_lt h)
  have hsame := round_lt (hback ▸ h)
  rw [← hsame, hback]

/-- Above 2^53 it need not be. -/
example : IsDouble (2 ^ 62) ∧ shortest (2 ^ 62) = 4611686018427388000 := by decide +kernel

end LaunchPad.Lib.Double
