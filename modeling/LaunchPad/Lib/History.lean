/-
  LaunchPad.Lib.History — the commands of programs that run side by side, in the order they
  were answered: what each program did when, beside the world they share.

  A time is a place in the history. What a program had done by then is the part of the
  history that is its own, so a condition on a program's own commands can be shown of the
  program alone (`Sat` over its own log) and used at every time of every run.

  Proved:
  - `run_at`: an entry of the history was a step of the run, between two runs.
  - `run_checked`: what a program alone shows of its own log at each command holds of its
    part of the history at each time.
  - `run_keeps`: what every entry of a stretch keeps, the stretch keeps.
-/
import LaunchPad.Lib.Crew
import Mathlib.Data.List.Induction
import Mathlib.Tactic.ByContra

namespace LaunchPad.Lib

section History

variable {ι Op : Type} {Resp : Op → Type} {W α : Type}

/-- A command, whose it was, and the answer it got. -/
structure Entry (ι : Type) {Op : Type} (Resp : Op → Type) where
  who : ι
  op : Op
  resp : Resp op

/-- Oldest first. -/
abbrev History (ι : Type) {Op : Type} (Resp : Op → Type) := List (Entry ι Resp)

structure Recorded (ι : Type) {Op : Type} (Resp : Op → Type) (W : Type) where
  store : W
  history : History ι Resp := []

/-- The same commands, written down. -/
def recorded (sem : ι → (o : Op) → W → Resp o → W → Prop) (i : ι) (o : Op) (w : Recorded ι Resp W) (r : Resp o)
    (w' : Recorded ι Resp W) : Prop :=
  sem i o w.store r w'.store ∧ w'.history = w.history ++ [⟨i, o, r⟩]

/-- The same server, written down. -/
def recordedServe (serve : ι → (o : Op) → W → Resp o × W) (i : ι) (o : Op) (w : Recorded ι Resp W) :
    Resp o × Recorded ι Resp W :=
  ((serve i o w.store).1, ⟨(serve i o w.store).2, w.history ++ [⟨i, o, (serve i o w.store).1⟩]⟩)

theorem recordedServe_sem {sem : ι → (o : Op) → W → Resp o → W → Prop} {serve : ι → (o : Op) → W → Resp o × W}
    (h : ∀ i o w, sem i o w (serve i o w).1 (serve i o w).2) (i : ι) (o : Op) (w : Recorded ι Resp W) :
    recorded sem i o w (recordedServe serve i o w).1 (recordedServe serve i o w).2 :=
  ⟨h i o w.store, rfl⟩

variable {sem : ι → (o : Op) → W → Resp o → W → Prop} [DecidableEq ι] {s t : Crew ι Resp α (Recorded ι Resp W)}

/-! ## Entries and the steps they were -/

theorem step_history (hs : CrewStep (recorded sem) s t) :
    ∃ e : Entry ι Resp, t.world.history = s.world.history ++ [e] ∧ sem e.who e.op s.world.store e.resp t.world.store ∧
      (∃ k, s.progs e.who = .act e.op k ∧ t.progs e.who = k e.resp) ∧ ∀ j, j ≠ e.who → t.progs j = s.progs j := by
  obtain ⟨hp, hsem⟩ := hs
  rename_i i o k r w'
  refine ⟨⟨i, o, r⟩, hsem.2, hsem.1, ⟨k, hp, ?_⟩, fun j hj => ?_⟩
  · simp only [if_pos]
  · simp only [if_neg hj]

theorem run_history (hr : CrewRun (recorded sem) s t) : ∃ done, t.world.history = s.world.history ++ done := by
  induction hr with
  | refl => exact ⟨[], (List.append_nil _).symm⟩
  | tail _ hs ih =>
    obtain ⟨done, hdone⟩ := ih
    obtain ⟨e, he, _⟩ := step_history hs
    exact ⟨done ++ [e], by rw [he, hdone, List.append_assoc]⟩

theorem run_history_get (hr : CrewRun (recorded sem) s t) {n : Nat} (hn : n < s.world.history.length) :
    t.world.history[n]? = s.world.history[n]? := by
  obtain ⟨done, hdone⟩ := run_history hr
  rw [hdone, List.getElem?_append_left hn]

theorem run_trans {u : Crew ι Resp α (Recorded ι Resp W)} (h : CrewRun (recorded sem) s t)
    (h' : CrewRun (recorded sem) t u) : CrewRun (recorded sem) s u := by
  induction h' with
  | refl => exact h
  | tail _ hs ih => exact .tail ih hs

/-- A run that adds nothing to the history goes nowhere. -/
theorem run_still (hr : CrewRun (recorded sem) s t) (hlen : t.world.history.length = s.world.history.length) : t = s := by
  cases hr with
  | refl => rfl
  | tail hr hs =>
    obtain ⟨done, hdone⟩ := run_history hr
    obtain ⟨e, he, _⟩ := step_history hs
    rw [he, hdone] at hlen
    simp at hlen

/-- An entry of the history was a step, after a run and before another. -/
theorem run_at (hr : CrewRun (recorded sem) s t) {n : Nat} {e : Entry ι Resp} (hn : s.world.history.length ≤ n)
    (he : t.world.history[n]? = some e) :
    ∃ u v, CrewRun (recorded sem) s u ∧ u.world.history = t.world.history.take n ∧
      (∃ k, u.progs e.who = .act e.op k) ∧ sem e.who e.op u.world.store e.resp v.world.store ∧
      v.world.history = u.world.history ++ [e] ∧ CrewRun (recorded sem) u v ∧ CrewRun (recorded sem) v t := by
  induction hr with
  | refl =>
    rw [List.getElem?_eq_none hn] at he
    cases he
  | tail hr hs ih =>
    rename_i t u
    obtain ⟨e', hh, hsem, ⟨k, hk, _⟩, _⟩ := step_history hs
    rcases Nat.lt_or_ge n t.world.history.length with hlt | hge
    · rw [hh, List.getElem?_append_left hlt] at he
      obtain ⟨u', v', hu, htake, hprog, hs', hv, huv, hvt⟩ := ih he
      refine ⟨u', v', hu, ?_, hprog, hs', hv, huv, .tail hvt hs⟩
      rw [htake, hh, List.take_append_of_le_length (Nat.le_of_lt hlt)]
    · rw [hh, List.getElem?_append_right hge] at he
      have hlt : n - t.world.history.length < 1 := (List.getElem?_eq_some_iff.mp he).1
      obtain rfl : n = t.world.history.length := by omega
      rw [Nat.sub_self] at he
      obtain rfl := Option.some.inj he
      refine ⟨t, u, hr, ?_, ⟨k, hk⟩, hsem, hh, .tail (.refl t) hs, .refl u⟩
      rw [hh, List.take_append_of_le_length (Nat.le_refl _), List.take_length]

/-! ## A program's own part -/

/-- What program `i` did, oldest first. -/
def mine (i : ι) (h : History ι Resp) : List (Event Resp) :=
  h.filterMap fun e => if e.who = i then some ⟨e.op, e.resp⟩ else none

theorem mine_append (i : ι) (h h' : History ι Resp) : mine i (h ++ h') = mine i h ++ mine i h' :=
  List.filterMap_append

theorem mine_self (e : Entry ι Resp) : mine e.who [e] = [⟨e.op, e.resp⟩] := by simp [mine]

theorem mine_other {i : ι} {e : Entry ι Resp} (h : e.who ≠ i) : mine i [e] = [] := by simp [mine, h]

omit [DecidableEq ι] in
theorem take_succ_get {h : History ι Resp} {n : Nat} {e : Entry ι Resp} (he : h[n]? = some e) :
    h.take (n + 1) = h.take n ++ [e] := by
  rw [List.take_add_one, he]
  rfl

/-- A program's log just after one of its own commands. -/
theorem mine_succ {h : History ι Resp} {n : Nat} {e : Entry ι Resp} (he : h[n]? = some e) :
    mine e.who (h.take (n + 1)) = mine e.who (h.take n) ++ [⟨e.op, e.resp⟩] := by
  rw [take_succ_get he, mine_append, mine_self]

/-- Later, a program's log has grown. -/
theorem mine_grows (i : ι) (h : History ι Resp) {m n : Nat} (hmn : m ≤ n) :
    ∃ l, mine i (h.take n) = mine i (h.take m) ++ l := by
  refine ⟨mine i ((h.take n).drop m), ?_⟩
  rw [← mine_append]
  congr 1
  rw [show h.take m = (h.take n).take m by rw [List.take_take, Nat.min_eq_left hmn], List.take_append_drop]

/-- A place in a program's log is a time of the history. -/
theorem mine_split {i : ι} {h : History ι Resp} {l₁ l₂ : List (Event Resp)} {ev : Event Resp}
    (hm : mine i h = l₁ ++ ev :: l₂) : ∃ n : Nat, h[n]? = some ⟨i, ev.op, ev.resp⟩ ∧ mine i (h.take n) = l₁ := by
  induction h using List.reverseRecOn generalizing l₂ with
  | nil => simp [mine] at hm
  | append_singleton h e ih =>
    have hearlier : ∀ l₂', mine i h = l₁ ++ ev :: l₂' → ∃ n : Nat, (h ++ [e])[n]? = some ⟨i, ev.op, ev.resp⟩ ∧
        mine i ((h ++ [e]).take n) = l₁ := by
      intro l₂' hm'
      obtain ⟨n, hn, htake⟩ := ih hm'
      have hlt := (List.getElem?_eq_some_iff.mp hn).1
      refine ⟨n, ?_, ?_⟩
      · rw [List.getElem?_append_left hlt, hn]
      · rw [List.take_append_of_le_length (Nat.le_of_lt hlt), htake]
    rw [mine_append] at hm
    by_cases hw : e.who = i
    · subst hw
      rw [mine_self] at hm
      rcases List.eq_nil_or_concat l₂ with rfl | ⟨l₂', ev', rfl⟩
      · obtain ⟨hl, hev⟩ := List.append_inj' hm rfl
        obtain rfl := List.singleton_inj.mp hev
        refine ⟨h.length, ?_, ?_⟩
        · rw [List.getElem?_append_right (Nat.le_refl _), Nat.sub_self]
          rfl
        · rw [List.take_append_of_le_length (Nat.le_refl _), List.take_length, hl]
      · rw [List.concat_eq_append, ← List.cons_append, ← List.append_assoc] at hm
        exact hearlier l₂' (List.append_inj' hm rfl).1
    · rw [mine_other hw, List.append_nil] at hm
      exact hearlier l₂ hm

omit [DecidableEq ι] in
theorem take_times {h : History ι Resp} {x n : Nat} {e : Entry ι Resp} (he : (h.take x)[n]? = some e) :
    n < x ∧ h[n]? = some e ∧ (h.take x).take n = h.take n := by
  have hn := (List.getElem?_eq_some_iff.mp he).1
  rw [List.length_take] at hn
  rw [List.getElem?_take_of_lt (by omega)] at he
  refine ⟨by omega, he, ?_⟩
  rw [List.take_take, Nat.min_eq_left (by omega)]

/-- The same, of what had been done by some time. -/
theorem mine_split_take {i : ι} {h : History ι Resp} {x : Nat} {l₁ l₂ : List (Event Resp)} {ev : Event Resp}
    (hm : mine i (h.take x) = l₁ ++ ev :: l₂) :
    ∃ n, n < x ∧ h[n]? = some ⟨i, ev.op, ev.resp⟩ ∧ mine i (h.take n) = l₁ := by
  obtain ⟨n, hn, hl⟩ := mine_split hm
  obtain ⟨hlt, he, htake⟩ := take_times hn
  exact ⟨n, hlt, he, htake ▸ hl⟩

/-- A longer log is a later time. -/
theorem mine_lt {i : ι} {h : History ι Resp} {m n : Nat}
    (hl : (mine i (h.take m)).length < (mine i (h.take n)).length) : m < n := by
  by_contra hle
  obtain ⟨l, hl'⟩ := mine_grows i h (Nat.le_of_not_lt hle)
  rw [hl', List.length_append] at hl
  omega

/-- A program's command between two times is in what its log has gained. -/
theorem mine_between {i : ι} {h : History ι Resp} {m n x : Nat} {l : List (Event Resp)} {e : Entry ι Resp}
    (hl : mine i (h.take x) = mine i (h.take m) ++ l) (hmn : m ≤ n) (hnx : n < x) (he : h[n]? = some e)
    (hi : e.who = i) : (⟨e.op, e.resp⟩ : Event Resp) ∈ l := by
  subst hi
  obtain ⟨l₁, h₁⟩ := mine_grows e.who h hmn
  obtain ⟨l₂, h₂⟩ := mine_grows e.who h (Nat.succ_le_of_lt hnx)
  rw [h₂, mine_succ he, h₁, List.append_assoc, List.append_assoc] at hl
  rw [← List.append_cancel_left hl]
  simp

/-- The observer of a program's own commands. -/
def note (l : List (Event Resp)) (o : Op) (r : Resp o) : List (Event Resp) := l ++ [⟨o, r⟩]

variable {G : ι → Op → List (Event Resp) → Prop} {Q : ι → α → List (Event Resp) → Prop}

/-- What each program shows of its own log, over every run. -/
theorem run_sat (h : ∀ i, Sat (tracker note) (G i) (Q i) (s.progs i) (mine i s.world.history))
    (hr : CrewRun (recorded sem) s t) :
    ∀ i, Sat (tracker note) (G i) (Q i) (t.progs i) (mine i t.world.history) := by
  induction hr with
  | refl => exact h
  | tail _ hs ih =>
    obtain ⟨e, hh, _, ⟨k, hk, hk'⟩, hother⟩ := step_history hs
    intro i
    rw [hh, mine_append]
    by_cases hi : i = e.who
    · subst hi
      have hsat := ih e.who
      rw [hk] at hsat
      rw [hk', mine_self]
      exact hsat.step (.act rfl)
    · rw [hother i hi, mine_other (Ne.symm hi), List.append_nil]
      exact ih i

/-- Each command was issued where its program's own log met its condition. -/
theorem run_checked (h : ∀ i, Sat (tracker note) (G i) (Q i) (s.progs i) []) (h₀ : s.world.history = [])
    (hr : CrewRun (recorded sem) s t) {n : Nat} {e : Entry ι Resp} (he : t.world.history[n]? = some e) :
    G e.who e.op (mine e.who (t.world.history.take n)) := by
  obtain ⟨u, _, hu, htake, ⟨k, hk⟩, _⟩ := run_at hr (by rw [h₀]; exact Nat.zero_le n) he
  have hsat := run_sat (s := s) (by rw [h₀]; exact h) hu e.who
  rw [hk, htake] at hsat
  exact hsat.atAct

/-! ## A stretch of a run -/

/-- What every command of the stretch keeps, the stretch keeps. -/
theorem run_keeps {P : W → Prop} (hr : CrewRun (recorded sem) s t)
    (hkeep : ∀ n e, s.world.history.length ≤ n → t.world.history[n]? = some e →
      ∀ w w', sem e.who e.op w e.resp w' → P w → P w') (h : P s.world.store) : P t.world.store := by
  induction hr with
  | refl => exact h
  | tail hr hs ih =>
    rename_i t u
    obtain ⟨e, hh, hsem, _⟩ := step_history hs
    obtain ⟨done, hdone⟩ := run_history hr
    have hP := ih fun n e' hn he' => hkeep n e' hn
      (by rw [hh, List.getElem?_append_left (List.getElem?_eq_some_iff.mp he').1, he'])
    refine hkeep t.world.history.length e ?_ ?_ _ _ hsem hP
    · rw [hdone, List.length_append]
      exact Nat.le_add_right _ _
    · rw [hh, List.getElem?_append_right (Nat.le_refl _), Nat.sub_self]
      rfl

end History

end LaunchPad.Lib
