/-
  LaunchPad.Lib.Best — the best element of a list: a walk keeps the candidate that beats the
  one it holds, passing over what is no candidate.

  When beating is having the larger key, and no two elements share a key, the best does not
  depend on the order of the list.

  Proved:
  - `best_max`: what is found is a candidate, and no candidate has a larger key.
  - `best_isSome`: something is found when there is a candidate.
  - `best_perm`: two orders of one list have the same best.
-/
import Mathlib.Data.List.Perm.Basic
import Mathlib.Order.Lattice

namespace LaunchPad.Lib

section Best

variable {α κ : Type} (ok : α → Bool) (beats : α → α → Bool)

/-- One round of the walk. -/
def keepBest (best : Option α) (a : α) : Option α :=
  if ok a then
    match best with
    | none => some a
    | some b => if beats a b then some a else some b
  else best

def bestOf (l : List α) : Option α := l.foldl (keepBest ok beats) none

variable [LinearOrder κ] (key : α → κ)

/-- Nothing seen so far has a larger key than what is held. -/
structure Holding (seen : List α) (best : Option α) : Prop where
  mem : ∀ x, best = some x → x ∈ seen ∧ ok x = true
  max : ∀ x, best = some x → ∀ y ∈ seen, ok y = true → key y ≤ key x
  some : ∀ y ∈ seen, ok y = true → best.isSome = true

variable {ok beats key} {l l' seen : List α} {held : Option α} {x : α}

theorem Holding.keep (h : Holding ok key seen held) {a : α}
    (hbeats : ∀ b ∈ seen, beats a b = true ↔ key b < key a) :
    Holding ok key (seen ++ [a]) (keepBest ok beats held a) := by
  have hlast : ∀ y ∈ seen ++ [a], y ∈ seen ∨ y = a := by simp
  unfold keepBest
  by_cases hok : ok a = true
  · rw [if_pos hok]
    cases held with
    | none =>
      have hnone : ∀ y ∈ seen, ok y = true → False := fun y hy hoky => by
        have hsome := h.some y hy hoky
        cases hsome
      refine ⟨fun x hx => ?_, fun x hx y hy hoky => ?_, fun _ _ _ => rfl⟩
      · cases hx
        exact ⟨by simp, hok⟩
      · cases hx
        rcases hlast y hy with hy | rfl
        · exact (hnone y hy hoky).elim
        · exact le_refl _
    | some b =>
      obtain ⟨hb, hokb⟩ := h.mem b rfl
      by_cases hab : beats a b = true
      · have hlt := (hbeats b hb).mp hab
        dsimp only
        rw [if_pos hab]
        refine ⟨fun x hx => ?_, fun x hx y hy hoky => ?_, fun _ _ _ => rfl⟩
        · cases hx
          exact ⟨by simp, hok⟩
        · cases hx
          rcases hlast y hy with hy | rfl
          · exact le_trans (h.max b rfl y hy hoky) (le_of_lt hlt)
          · exact le_refl _
      · have hle : key a ≤ key b := not_lt.mp (mt (hbeats b hb).mpr hab)
        dsimp only
        rw [if_neg hab]
        refine ⟨fun x hx => ?_, fun x hx y hy hoky => ?_, fun _ _ _ => rfl⟩
        · cases hx
          exact ⟨List.mem_append_left _ hb, hokb⟩
        · cases hx
          rcases hlast y hy with hy | rfl
          · exact h.max b rfl y hy hoky
          · exact hle
  · rw [if_neg hok]
    refine ⟨fun x hx => ?_, fun x hx y hy hoky => ?_, fun y hy hoky => ?_⟩
    · obtain ⟨hx, hokx⟩ := h.mem x hx
      exact ⟨List.mem_append_left _ hx, hokx⟩
    · rcases hlast y hy with hy | rfl
      · exact h.max x hx y hy hoky
      · exact absurd hoky hok
    · rcases hlast y hy with hy | rfl
      · exact h.some y hy hoky
      · exact absurd hoky hok

theorem Holding.foldl (h : Holding ok key seen held)
    (hbeats : ∀ a ∈ seen ++ l, ∀ b ∈ seen ++ l, beats a b = true ↔ key b < key a) :
    Holding ok key (seen ++ l) (l.foldl (keepBest ok beats) held) := by
  induction l generalizing seen held with
  | nil => simpa using h
  | cons a l ih =>
    rw [← List.singleton_append, ← List.append_assoc] at hbeats ⊢
    refine ih (h.keep fun b hb => hbeats a ?_ b ?_) hbeats
    · simp
    · simp [hb]

theorem best_holding (hbeats : ∀ a ∈ l, ∀ b ∈ l, beats a b = true ↔ key b < key a) : Holding ok key l (bestOf ok beats l) := by
  have hnil : Holding ok key [] none := by
    refine ⟨fun x hx => ?_, fun x hx => ?_, fun y hy => ?_⟩
    · cases hx
    · cases hx
    · cases hy
  exact hnil.foldl hbeats

/-- What is found is a candidate with the largest key. -/
theorem best_max (hbeats : ∀ a ∈ l, ∀ b ∈ l, beats a b = true ↔ key b < key a) (h : bestOf ok beats l = some x) :
    (x ∈ l ∧ ok x = true) ∧ ∀ y ∈ l, ok y = true → key y ≤ key x :=
  ⟨(best_holding hbeats).mem x h, (best_holding hbeats).max x h⟩

theorem best_isSome (hbeats : ∀ a ∈ l, ∀ b ∈ l, beats a b = true ↔ key b < key a) {y : α} (hy : y ∈ l) (hok : ok y = true) :
    (bestOf ok beats l).isSome = true := (best_holding hbeats).some y hy hok

/-- The order of the list does not matter. -/
theorem best_perm (h : l.Perm l') (hbeats : ∀ a ∈ l, ∀ b ∈ l, beats a b = true ↔ key b < key a)
    (hkey : ∀ a ∈ l, ∀ b ∈ l, key a = key b → a = b) : bestOf ok beats l = bestOf ok beats l' := by
  have hbeats' : ∀ a ∈ l', ∀ b ∈ l', beats a b = true ↔ key b < key a :=
    fun a ha b hb => hbeats a (h.mem_iff.mpr ha) b (h.mem_iff.mpr hb)
  cases hl : bestOf ok beats l with
  | none =>
    cases hl' : bestOf ok beats l' with
    | none => rfl
    | some y =>
      obtain ⟨⟨hy, hok⟩, _⟩ := best_max hbeats' hl'
      have hsome := best_isSome hbeats (h.mem_iff.mpr hy) hok
      rw [hl] at hsome
      cases hsome
  | some x =>
    obtain ⟨⟨hx, hokx⟩, hmax⟩ := best_max hbeats hl
    cases hl' : bestOf ok beats l' with
    | none =>
      have hsome := best_isSome hbeats' (h.mem_iff.mp hx) hokx
      rw [hl'] at hsome
      cases hsome
    | some y =>
      obtain ⟨⟨hy, hoky⟩, hmax'⟩ := best_max hbeats' hl'
      have hle := hmax y (h.mem_iff.mpr hy) hoky
      have hge := hmax' x (h.mem_iff.mp hx) hokx
      rw [hkey x hx y (h.mem_iff.mpr hy) (le_antisymm hge hle)]

end Best

end LaunchPad.Lib
