/-
  LaunchPad.Lib.Parts — programs over a world that is seen in parts, each stretch of which
  works on one part.

  `view k w` is part `k` of the world `w`. A stretch that starts from what its part was at
  first, and leaves the other parts alone, may stand anywhere among stretches of other parts.

  Proved:
  - `sat_parts`: stretches of different parts, one after the other, bring each of their parts
    where the part's own stretch brings it, and leave the rest.
-/
import LaunchPad.Lib.Prog
import Mathlib.Data.List.Nodup

namespace LaunchPad.Lib

section Parts

variable {Op : Type} {Resp : Op → Type} {W K S ε γ : Type} (M : Machine Resp W) (view : K → W → S) (I : W → Prop)
  (G : Op → W → Prop)

/-- From `w` the program changes part `k` alone, brings it to `Q`, and does not fail. -/
def WorksOn (k : K) (Q : S → Prop) (p : ExceptT ε (Prog Resp) PUnit) (w : W) : Prop :=
  Sat M G (onResult (fun _ w' => I w' ∧ Q (view k w') ∧ ∀ j, j ≠ k → view j w' = view j w) fun _ _ => False) p.run w

variable {M view I G}

/-- A stretch for each part of the list, from any world where the part is as it was. -/
theorem sat_parts (hquiet : ∀ w w', ¬ M.rely w w') {f : γ → ExceptT ε (Prog Resp) PUnit} {start : K → S}
    {Q : K → S → Prop} {l : List (K × List γ)} (hk : (l.map (·.1)).Nodup)
    (hl : ∀ e ∈ l, ∀ w, I w → view e.1 w = start e.1 → WorksOn M view I G e.1 (Q e.1) (forM e.2 f) w) {w : W} (hI : I w)
    (hstart : ∀ e ∈ l, view e.1 w = start e.1) :
    Sat M G (onResult (fun _ w' => I w' ∧ (∀ e ∈ l, Q e.1 (view e.1 w')) ∧
      ∀ j, j ∉ l.map (·.1) → view j w' = view j w) fun _ _ => False) (forM (l.flatMap (·.2)) f).run w := by
  have hstable : ∀ P : W → Prop, M.Stable P := fun _ _ _ _ hr => (hquiet _ _ hr).elim
  induction l generalizing w with
  | nil =>
    refine Sat.ret (P := fun w' => w' = w) (hstable _) rfl ?_
    rintro _ rfl
    exact ⟨hI, fun e he => (by cases he), fun _ _ => rfl⟩
  | cons e l ih =>
    obtain ⟨hnew, hk⟩ := List.nodup_cons.mp hk
    have happ : (forM ((e :: l).flatMap (·.2)) f : ExceptT ε (Prog Resp) PUnit) =
        (do forM e.2 f; forM (l.flatMap (·.2)) f) := by
      rw [List.flatMap_cons, List.forM_append]
    rw [happ]
    refine Sat.bindE (hl e (List.mem_cons_self ..) w hI (hstart e (List.mem_cons_self ..))) (fun _ => hstable _) ?_
    rintro - w' ⟨hI', hQ, hothers⟩
    have hstart' : ∀ e' ∈ l, view e'.1 w' = start e'.1 := by
      intro e' he'
      have hne : e'.1 ≠ e.1 := fun he => hnew (List.mem_map.mpr ⟨e', he', he⟩)
      rw [hothers _ hne]
      exact hstart e' (List.mem_cons_of_mem _ he')
    refine (ih hk (fun e' he' => hl e' (List.mem_cons_of_mem _ he')) hI' hstart').mono (fun _ _ h => h) ?_
    rintro (err | u) w'' hend
    · exact hend
    obtain ⟨hI'', hall, hrest⟩ := hend
    refine ⟨hI'', fun e' he' => ?_, fun j hj => ?_⟩
    · rcases List.mem_cons.mp he' with rfl | he'
      · rw [hrest _ hnew]
        exact hQ
      · exact hall e' he'
    · rw [List.map_cons, List.mem_cons, not_or] at hj
      rw [hrest j hj.2, hothers j hj.1]

end Parts

end LaunchPad.Lib
