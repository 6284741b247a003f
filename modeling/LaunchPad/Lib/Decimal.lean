/-
  LaunchPad.Lib.Decimal — decimal numerals of a fixed width, padded with zeros, the order
  of texts that begin with one, and numbers as they are printed.

  A number that fits the width is read back from its numeral, and two numerals of one width
  are in the order of their numbers. Texts built from numerals and the same separators are
  then compared part by part (`append_lt_append`).

  Proved:
  - `value_pad`: a padded numeral has the number's value.
  - `pad_lt_iff`: the order of numerals of one width is that of the numbers.
  - `repr_injective`, `not_mem_repr`: a printed number names one number, in digits and a sign.
-/
import Mathlib.Algebra.Group.Nat.Defs
import Mathlib.Data.Nat.Init
import Mathlib.Tactic.Tauto

namespace LaunchPad.Lib.Decimal

/-- `n` in at least `width` digits. -/
def pad (width n : Nat) : List Char :=
  List.replicate (width - (Nat.toDigits 10 n).length) '0' ++ Nat.toDigits 10 n

/-- The last digit stands alone. -/
theorem pad_succ {w : Nat} (hw : 1 ≤ w) (n : Nat) : pad (w + 1) n = pad w (n / 10) ++ [(n % 10).digitChar] := by
  unfold pad
  by_cases h : n < 10
  · rw [Nat.toDigits_of_lt_base h, Nat.div_eq_of_lt h, Nat.mod_eq_of_lt h, Nat.toDigits_zero]
    obtain ⟨k, rfl⟩ : ∃ k, w = k + 1 := ⟨w - 1, by omega⟩
    rw [← List.replicate_succ']
    simp
  · rw [Nat.toDigits_of_base_le (by decide) (by omega), List.length_append, ← List.append_assoc]
    simp

theorem pad_one {n : Nat} (h : n < 10) : pad 1 n = [n.digitChar] := by
  unfold pad
  rw [Nat.toDigits_of_lt_base h]
  rfl

theorem length_pad {w n : Nat} (hw : 1 ≤ w) (h : n < 10 ^ w) : (pad w n).length = w := by
  have hlen : (Nat.toDigits 10 n).length ≤ w := (Nat.length_toDigits_le_iff (by decide) hw).mpr h
  unfold pad
  rw [List.length_append, List.length_replicate]
  omega

theorem isDigit_of_mem_pad {w n : Nat} {c : Char} (h : c ∈ pad w n) : c.isDigit = true := by
  rcases List.mem_append.mp h with h | h
  · rw [List.eq_of_mem_replicate h]
    decide
  · exact Nat.isDigit_of_mem_toDigits (by decide) (by decide) h

/-- A padded numeral has the number's value. -/
theorem value_pad (w n : Nat) : Nat.ofDigitChars 10 (pad w n) 0 = n := by
  unfold pad
  rw [Nat.ofDigitChars_append, Nat.ofDigitChars_replicate_zero, Nat.mul_zero, Nat.ofDigitChars_ten_toDigits]

/-! ## Order -/

/-- Texts whose first parts are equally long are compared part by part. -/
theorem append_lt_append {a b c d : List Char} (h : a.length = b.length) :
    a ++ c < b ++ d ↔ a < b ∨ a = b ∧ c < d := by
  induction a generalizing b with
  | nil =>
    obtain rfl : b = [] := List.eq_nil_of_length_eq_zero h.symm
    simp
  | cons x a ih =>
    cases b with
    | nil => simp at h
    | cons y b =>
      have hlen : a.length = b.length := by simpa using h
      simp only [List.cons_append, List.cons_lt_cons_iff, ih hlen, List.cons.injEq]
      tauto

theorem append_left_lt (a : List Char) {c d : List Char} : a ++ c < a ++ d ↔ c < d := by
  induction a with
  | nil => rfl
  | cons x a ih => simp [ih]

theorem digitChar_lt_iff : ∀ m < 10, ∀ n < 10, m.digitChar < n.digitChar ↔ m < n := by decide

theorem pad_inj {w m n : Nat} (h : pad w m = pad w n) : m = n := by
  rw [← value_pad w m, h, value_pad]

/-- The order of numerals of one width is that of the numbers. -/
theorem pad_lt_iff {w m n : Nat} (hw : 1 ≤ w) (hm : m < 10 ^ w) (hn : n < 10 ^ w) : pad w m < pad w n ↔ m < n := by
  induction w, hw using Nat.le_induction generalizing m n with
  | base =>
    rw [pad_one (by omega), pad_one (by omega), List.cons_lt_cons_iff, digitChar_lt_iff m (by omega) n (by omega)]
    simp
  | succ w hw ih =>
    have hm' : m / 10 < 10 ^ w := by rw [Nat.pow_succ] at hm; omega
    have hn' : n / 10 < 10 ^ w := by rw [Nat.pow_succ] at hn; omega
    have heq : pad w (m / 10) = pad w (n / 10) ↔ m / 10 = n / 10 := ⟨pad_inj, fun h => by rw [h]⟩
    rw [pad_succ hw, pad_succ hw, append_lt_append (by rw [length_pad hw hm', length_pad hw hn']), ih hm' hn', heq,
      List.cons_lt_cons_iff, digitChar_lt_iff _ (by omega) _ (by omega)]
    simp only [List.not_lt_nil, and_false, or_false]
    omega

/-! ## Printed numbers -/

theorem toList_ofNat (m : Nat) : (Int.ofNat m).repr.toList = Nat.toDigits 10 m := String.toList_ofList

theorem toList_negSucc (m : Nat) : (Int.negSucc m).repr.toList = '-' :: Nat.toDigits 10 (m + 1) := by
  have hrepr : (Nat.repr (m + 1)).toList = Nat.toDigits 10 (m + 1) := String.toList_ofList
  refine (String.toList_append ..).trans ?_
  rw [hrepr]
  rfl

theorem not_mem_toDigits {c : Char} (hc : c.isDigit = false) (m : Nat) : c ∉ Nat.toDigits 10 m := by
  intro h
  rw [Nat.isDigit_of_mem_toDigits (by decide) (by decide) h] at hc
  cases hc

/-- A printed number has digits and a sign. -/
theorem not_mem_repr {c : Char} (hc : c.isDigit = false) (hminus : c ≠ '-') (n : Int) : c ∉ n.repr.toList := by
  cases n with
  | ofNat m =>
    rw [toList_ofNat]
    exact not_mem_toDigits hc m
  | negSucc m =>
    rw [toList_negSucc, List.mem_cons]
    rintro (h | h)
    · exact hminus h
    · exact not_mem_toDigits hc _ h

theorem toDigits_inj {m n : Nat} (h : Nat.toDigits 10 m = Nat.toDigits 10 n) : m = n := by
  have hback := congrArg (Nat.ofDigitChars 10 · 0) h
  simpa only [Nat.ofDigitChars_ten_toDigits] using hback

theorem repr_injective {m n : Int} (h : m.repr = n.repr) : m = n := by
  replace h := congrArg String.toList h
  have hsign : ∀ k l : Nat, Nat.toDigits 10 k ≠ '-' :: Nat.toDigits 10 l := by
    intro k l he
    exact not_mem_toDigits (by decide) k (he ▸ List.mem_cons_self ..)
  cases m with
  | ofNat m =>
    cases n with
    | ofNat n =>
      rw [toList_ofNat, toList_ofNat] at h
      rw [toDigits_inj h]
    | negSucc n =>
      rw [toList_ofNat, toList_negSucc] at h
      exact absurd h (hsign _ _)
  | negSucc m =>
    cases n with
    | ofNat n =>
      rw [toList_ofNat, toList_negSucc] at h
      exact absurd h.symm (hsign _ _)
    | negSucc n =>
      rw [toList_negSucc, toList_negSucc] at h
      have := toDigits_inj (List.tail_eq_of_cons_eq h)
      omega

end LaunchPad.Lib.Decimal
