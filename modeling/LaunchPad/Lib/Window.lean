/-
  LaunchPad.Lib.Window — events counted in fixed windows: the first one opens a window of
  width `W`, and one after its end opens the next. A window holds at most `c` events, and a
  stretch of time meets few windows, so it holds few events, wherever it starts.

  Proved:
  - `Windowed.bound`: a stretch of `n` widths holds at most `c * (n + 1)` events.
  - `Windowed.push`: what one more event must keep.
-/
import Mathlib.Algebra.BigOperators.Group.Finset.Basic
import Mathlib.Algebra.Order.BigOperators.Group.Finset

namespace LaunchPad.Lib

/-- Events with the end of the window that each is counted in. -/
structure Windowed (W c : Nat) (l : List (Nat × Nat)) : Prop where
  inside : ∀ r ∈ l, r.1 < r.2 ∧ r.2 ≤ r.1 + W
  apart : ∀ r ∈ l, ∀ s ∈ l, r.2 < s.2 → r.2 + W ≤ s.2
  few : ∀ e, (l.map (·.2)).count e ≤ c

namespace Windowed

variable {W c : Nat} {l : List (Nat × Nat)}

theorem nil (W c : Nat) : Windowed W c [] := ⟨by simp, by simp, by simp⟩

/-- The events of a stretch. -/
def within (a b : Nat) (l : List (Nat × Nat)) : List (Nat × Nat) := l.filter fun r => a ≤ r.1 && r.1 < b

theorem mem_within {a b : Nat} {r : Nat × Nat} : r ∈ within a b l ↔ r ∈ l ∧ a ≤ r.1 ∧ r.1 < b := by
  simp [within]

/-- The windows that a stretch meets. -/
theorem windows_le (h : Windowed W c l) (hW : 0 < W) (a n : Nat) :
    ((within a (a + n * W) l).map (·.2)).toFinset.card ≤ n + 1 := by
  -- the ends lie a width apart, so no two share a width of time
  rw [← Finset.card_range (n + 1)]
  refine Finset.card_le_card_of_injOn (fun e => (e - (a + 1)) / W) (fun e he => ?_) fun e he e' he' hsame => ?_
  · obtain ⟨r, hr, rfl⟩ := List.mem_map.mp (List.mem_toFinset.mp he)
    obtain ⟨hl, -, hlt⟩ := mem_within.mp hr
    have hin := h.inside r hl
    refine Finset.mem_coe.mpr (Finset.mem_range.mpr (Nat.div_lt_of_lt_mul ?_))
    have hmul : W * (n + 1) = n * W + W := by rw [Nat.mul_add, Nat.mul_comm, Nat.mul_one]
    omega
  · have hstep : ∀ {r s : Nat × Nat}, r ∈ within a (a + n * W) l → s ∈ within a (a + n * W) l → r.2 < s.2 →
        (r.2 - (a + 1)) / W < (s.2 - (a + 1)) / W := by
      intro r s hr hs hlt
      obtain ⟨hr, hra, -⟩ := mem_within.mp hr
      obtain ⟨hs, -⟩ := mem_within.mp hs
      have hapart := h.apart r hr s hs hlt
      have hin := h.inside r hr
      calc (r.2 - (a + 1)) / W < (r.2 - (a + 1)) / W + 1 := Nat.lt_succ_self _
        _ = (r.2 - (a + 1) + W) / W := (Nat.add_div_right _ hW).symm
        _ ≤ (s.2 - (a + 1)) / W := Nat.div_le_div_right (by omega)
    obtain ⟨r, hr, rfl⟩ := List.mem_map.mp (List.mem_toFinset.mp he)
    obtain ⟨s, hs, rfl⟩ := List.mem_map.mp (List.mem_toFinset.mp he')
    replace hsame : (r.2 - (a + 1)) / W = (s.2 - (a + 1)) / W := hsame
    rcases Nat.lt_trichotomy r.2 s.2 with hlt | heq | hlt
    · exact absurd hsame (Nat.ne_of_lt (hstep hr hs hlt))
    · exact heq
    · exact absurd hsame.symm (Nat.ne_of_lt (hstep hs hr hlt))

theorem bound (h : Windowed W c l) (hW : 0 < W) (a n : Nat) : (within a (a + n * W) l).length ≤ c * (n + 1) := by
  let ends := (within a (a + n * W) l).map (·.2)
  have hfew : ∀ e ∈ ends.toFinset, ends.count e ≤ c := by
    intro e _
    have hsub : ends.Sublist (l.map (·.2)) := List.filter_sublist.map _
    exact Nat.le_trans (hsub.count_le e) (h.few e)
  calc (within a (a + n * W) l).length = ends.length := (List.length_map ..).symm
    _ = ∑ e ∈ ends.toFinset, ends.count e := (List.sum_toFinset_count_eq_length ends).symm
    _ ≤ ends.toFinset.card • c := Finset.sum_le_card_nsmul _ _ _ hfew
    _ ≤ (n + 1) • c := Nat.mul_le_mul_right c (h.windows_le hW a n)
    _ = c * (n + 1) := Nat.mul_comm ..

/-- One more event, in the last window or in one after it. -/
theorem push (h : Windowed W c l) {t e : Nat} (hin : t < e ∧ e ≤ t + W) (hlast : ∀ r ∈ l, r.2 = e ∨ r.2 + W ≤ e)
    (hfew : (l.map (·.2)).count e + 1 ≤ c) : Windowed W c ((t, e) :: l) := by
  refine ⟨fun r hr => ?_, fun r hr s hs hlt => ?_, fun x => ?_⟩
  · rcases List.mem_cons.mp hr with rfl | hr
    · exact hin
    · exact h.inside r hr
  · rcases List.mem_cons.mp hr with rfl | hr
    · -- nothing is later than the last window
      rcases List.mem_cons.mp hs with rfl | hs
      · exact absurd hlt (Nat.lt_irrefl _)
      · replace hlt : e < s.2 := hlt
        have := hlast s hs
        omega
    · rcases List.mem_cons.mp hs with rfl | hs
      · show r.2 + W ≤ e
        replace hlt : r.2 < e := hlt
        have := hlast r hr
        omega
      · exact h.apart r hr s hs hlt
  · rw [List.map_cons, List.count_cons]
    by_cases hx : e = x
    · subst hx
      simpa using hfew
    · simpa [hx] using h.few x

end Windowed

end LaunchPad.Lib
