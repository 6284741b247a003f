/-
  LaunchPad.Lib.Probe — a search that walks a window of numbers from some place on, around
  its end if need be, and stops at the first one that is not taken.

  Proved:
  - `probe_orbit`: the search ends on a place it walks over.
  - `probe_free`: with a free place within its steps, it ends on a free one.
  - `cyclic_reaches`: a walk of the window's length comes by every place of the window.
  - `exists_free`: fewer taken numbers than places leave one free.
-/
import Mathlib.Data.List.Nodup
import Mathlib.Data.List.Perm.Subperm
import Mathlib.Logic.Function.Iterate

namespace LaunchPad.Lib.Probe

/-! ## The search -/

section Search

variable {α : Type} (taken : α → Bool) (next : α → α)

/-- For at most `fuel` steps. -/
def probe : Nat → α → α
  | 0, x => x
  | fuel + 1, x => if taken x then probe fuel (next x) else x

variable {taken next}

theorem probe_orbit (fuel : Nat) (x : α) : ∃ k ≤ fuel, probe taken next fuel x = next^[k] x := by
  induction fuel generalizing x with
  | zero => exact ⟨0, Nat.le_refl 0, rfl⟩
  | succ fuel ih =>
    unfold probe
    split
    · obtain ⟨k, hk, he⟩ := ih (next x)
      exact ⟨k + 1, Nat.succ_le_succ hk, he⟩
    · exact ⟨0, Nat.zero_le _, rfl⟩

/-- A search that ends on a taken place has passed over taken places only. -/
theorem probe_taken {fuel : Nat} {x : α} (h : taken (probe taken next fuel x) = true) {k : Nat} (hk : k ≤ fuel) :
    taken (next^[k] x) = true := by
  induction fuel generalizing x k with
  | zero =>
    obtain rfl := Nat.le_zero.mp hk
    exact h
  | succ fuel ih =>
    unfold probe at h
    split at h
    · rename_i hx
      cases k with
      | zero => exact hx
      | succ k => exact ih h (Nat.le_of_succ_le_succ hk)
    · rename_i hx
      exact absurd h hx

theorem probe_free {fuel k : Nat} {x : α} (hk : k ≤ fuel) (h : taken (next^[k] x) = false) :
    taken (probe taken next fuel x) = false := by
  rw [← Bool.not_eq_true]
  intro htaken
  rw [probe_taken htaken hk] at h
  cases h

end Search

/-! ## The window -/

/-- The numbers from `lo` on, `n` of them. -/
def Within (lo : Int) (n : Nat) (x : Int) : Prop := lo ≤ x ∧ x < lo + n

/-- The next number of the window, around its end. -/
def cyclic (lo : Int) (n : Nat) (x : Int) : Int := lo + (x + 1 - lo) % n

variable {lo : Int} {n : Nat}

theorem within_cyclic (hn : 0 < n) (x : Int) : Within lo n (cyclic lo n x) := by
  have hlow := Int.emod_nonneg (x + 1 - lo) (show (n : Int) ≠ 0 by omega)
  have hhigh := Int.emod_lt_of_pos (x + 1 - lo) (show (0 : Int) < n by omega)
  unfold Within cyclic
  omega

theorem within_iterate {x : Int} (h : Within lo n x) (k : Nat) : Within lo n ((cyclic lo n)^[k] x) := by
  have hn : 0 < n := by
    have := h.1
    have := h.2
    omega
  cases k with
  | zero => exact h
  | succ k =>
    rw [Function.iterate_succ_apply']
    exact within_cyclic hn _

theorem iterate_cyclic {x : Int} (h : Within lo n x) (k : Nat) : (cyclic lo n)^[k] x = lo + (x - lo + k) % n := by
  induction k with
  | zero =>
    have hsame : (x - lo) % n = x - lo := Int.emod_eq_of_lt (by have := h.1; omega) (by have := h.2; omega)
    rw [Function.iterate_zero_apply, Int.natCast_zero, Int.add_zero, hsame]
    omega
  | succ k ih =>
    rw [Function.iterate_succ_apply', ih, cyclic]
    have hstep : lo + (x - lo + k) % n + 1 - lo = (x - lo + k) % n + 1 := by omega
    rw [hstep, Int.emod_add_emod, Int.natCast_succ, Int.add_assoc]

/-- Once around, every place of the window. -/
theorem cyclic_reaches {x y : Int} (hx : Within lo n x) (hy : Within lo n y) : ∃ k < n, (cyclic lo n)^[k] x = y := by
  have hn : (0 : Int) < n := by
    have := hx.1
    have := hx.2
    omega
  have hlow := Int.emod_nonneg (y - x) (show (n : Int) ≠ 0 by omega)
  have hhigh := Int.emod_lt_of_pos (y - x) hn
  refine ⟨((y - x) % n).toNat, by omega, ?_⟩
  rw [iterate_cyclic hx, Int.toNat_of_nonneg hlow, Int.add_emod_emod]
  have hsum : x - lo + (y - x) = y - lo := by omega
  rw [hsum, Int.emod_eq_of_lt (by have := hy.1; omega) (by have := hy.2; omega)]
  omega

/-- A window is not full of fewer numbers than it has. -/
theorem exists_free {l : List Int} (h : l.length < n) : ∃ x, Within lo n x ∧ x ∉ l := by
  by_contra hfull
  have hsub : ((List.range n).map fun i : Nat => lo + i) ⊆ l := by
    intro x hx
    obtain ⟨i, hi, rfl⟩ := List.mem_map.mp hx
    have hi := List.mem_range.mp hi
    by_contra hout
    exact hfull ⟨lo + i, ⟨by omega, by omega⟩, hout⟩
  have hnodup : ((List.range n).map fun i : Nat => lo + i).Nodup :=
    List.nodup_range.map fun i j hij => Int.natCast_inj.mp (Int.add_left_cancel hij)
  have hle := (List.Nodup.subperm hnodup hsub).length_le
  rw [List.length_map, List.length_range] at hle
  omega

end LaunchPad.Lib.Probe
