/-
  LaunchPad.Agent.CronFields — the agent's cron parser (`agent-rust/src/cron.rs`:
  `parse_number`, `expand_item`, `parse_field`, `parse_cron_expression`) against the
  five-field language of `Lib.Crontab`.

  An item's loop adds its step in `i64`. A step is any positive `i64`, so the last addition
  may leave 64 bits; in a release build it wraps, and the loop goes on from below zero.

  As built:
  - `wide_step_fires_at_zero`: `2/9223372036854775807` in the minute field is the minutes 2
    and 0 and one below zero.

  Proved, of every text:
  - `cron_expansion_exact_iff`: every loop ends; and none overflows, the values are in range
    and the schedule matches what the language says, exactly when no item that is expanded
    starts above the largest `i64` less its step.
-/
import LaunchPad.Agent.CronFire
import LaunchPad.Lib.Calendar
import LaunchPad.Lib.Crontab
import Mathlib.Data.List.TakeWhile
import Mathlib.Tactic.Ring

namespace LaunchPad.Agent

open Lib

/-! ## Numbers -/

/-- A field of the parser has the range of a field of the language. -/
structure SpecOf (spec : FieldSpec) (F : Crontab.Field) : Prop where
  min : spec.min = F.min
  max : spec.max = F.max
  le : F.min ≤ F.max
  small : F.max ≤ 59

theorem minute_spec : SpecOf minuteField Crontab.minute := ⟨rfl, rfl, by decide, by decide⟩
theorem hour_spec : SpecOf hourField Crontab.hour := ⟨rfl, rfl, by decide, by decide⟩
theorem dom_spec : SpecOf domField Crontab.dayOfMonth := ⟨rfl, rfl, by decide, by decide⟩
theorem month_spec : SpecOf monthField Crontab.month := ⟨rfl, rfl, by decide, by decide⟩
theorem dow_spec : SpecOf dowField Crontab.dayOfWeek := ⟨rfl, rfl, by decide, by decide⟩

theorem digits_value {token : List Char} (h : ∀ c ∈ token, c.isDigit = true) (n : Nat) :
    token.foldl (fun (n : Int) c => n * 10 + ((c.toNat : Int) - ('0'.toNat : Int))) (n : Int) =
      (token.foldl (fun n c => n * 10 + (c.toNat - '0'.toNat)) n : Nat) := by
  induction token generalizing n with
  | nil => rfl
  | cons c token ih =>
    obtain ⟨hc, htail⟩ := List.forall_mem_cons.mp h
    have hdigit : '0'.toNat ≤ c.toNat := by
      simp only [Char.isDigit, Bool.and_eq_true, decide_eq_true_eq] at hc
      exact hc.1
    rw [List.foldl_cons, List.foldl_cons, ← ih htail]
    congr 1
    omega

theorem parseDigits_value {token : List Char} (h : ∀ c ∈ token, c.isDigit = true) :
    parseDigits token = if (Crontab.value token : Int) ≤ i64Max then some (Crontab.value token : Int) else none := by
  have hv := digits_value h 0
  unfold parseDigits Crontab.value
  simp only [← hv, Int.natCast_zero]

theorem numeral_iff {token : List Char} : (token.isEmpty || !token.all Char.isDigit) = false ↔ Crontab.Numeral token := by
  unfold Crontab.Numeral
  simp

theorem parseNumber_ok {token : List Char} {spec : FieldSpec} {F : Crontab.Field} (hF : SpecOf spec F) {n : Int} :
    parseNumber token spec = .ok n ↔
      Crontab.Numeral token ∧ n = Crontab.value token ∧ F.min ≤ Crontab.value token ∧ Crontab.value token ≤ F.max := by
  obtain ⟨hmin, hmax, _, hsmall⟩ := hF
  have hmax64 : i64Max = 9223372036854775807 := rfl
  unfold parseNumber
  simp only
  by_cases hnum : (token.isEmpty || !token.all Char.isDigit) = false
  · have hn := numeral_iff.mp hnum
    rw [if_neg (by rw [hnum]; decide), parseDigits_value hn.2]
    by_cases hrange : F.min ≤ Crontab.value token ∧ Crontab.value token ≤ F.max
    · have hfits : (Crontab.value token : Int) ≤ i64Max := by omega
      have hin : (decide ((Crontab.value token : Int) < spec.min) || decide ((Crontab.value token : Int) > spec.max)) = false := by
        simp only [Bool.or_eq_false_iff, decide_eq_false_iff_not]
        omega
      simp only [hfits, if_true, hin, Bool.false_eq_true, if_false]
      constructor
      · intro h
        cases h
        exact ⟨hn, rfl, hrange⟩
      · rintro ⟨_, rfl, _⟩
        rfl
    · refine iff_of_false ?_ fun h => hrange h.2.2
      by_cases hfits : (Crontab.value token : Int) ≤ i64Max
      · have hout : (Crontab.value token : Int) < spec.min ∨ (Crontab.value token : Int) > spec.max := by omega
        simp [hfits, hout]
      · simp [hfits]
  · refine iff_of_false ?_ fun h => hnum (numeral_iff.mpr h.1)
    rw [Bool.not_eq_false] at hnum
    simp [hnum]

/-! ## Items -/

theorem parseStep_ok {item : List Char} {step : Option (List Char)} {spec : FieldSpec} {n : Int} :
    parseStep item step spec = .ok n ↔
      (step = none ∧ n = 1) ∨
        ∃ k, step = some k ∧ Crontab.Numeral k ∧ 0 < Crontab.value k ∧ (Crontab.value k : Int) ≤ i64Max ∧ n = Crontab.value k := by
  unfold parseStep
  cases step with
  | none =>
    constructor
    · intro h
      cases h
      exact .inl ⟨rfl, rfl⟩
    · rintro (⟨_, rfl⟩ | ⟨k, hk, _⟩)
      · rfl
      · cases hk
  | some k =>
    simp only [reduceCtorEq, false_and, false_or, Option.some.injEq, exists_eq_left']
    by_cases hnum : (k.isEmpty || !k.all Char.isDigit) = false
    · have hk := numeral_iff.mp hnum
      rw [hnum, Bool.false_or, parseDigits_value hk.2]
      by_cases hfits : (Crontab.value k : Int) ≤ i64Max
      · by_cases hzero : Crontab.value k = 0
        · simp [hzero, i64Max]
        · have hne : ((some (Crontab.value k : Int) : Option Int) == some 0) = false := by
            rw [beq_eq_false_iff_ne]
            intro h
            have := Option.some.inj h
            omega
          simp only [hfits, if_true, hne, Bool.false_eq_true, if_false, Except.ok.injEq, true_and]
          exact ⟨fun h => ⟨hk, by omega, h.symm⟩, fun h => h.2.2.symm⟩
      · simp [hfits]
    · refine iff_of_false ?_ fun h => hnum (numeral_iff.mpr h.1)
      rw [Bool.not_eq_false] at hnum
      simp [hnum]

theorem parseRange_number {text : List Char} {hasStep : Bool} {spec : FieldSpec} {F : Crontab.Field} (hF : SpecOf spec F)
    (hn : Crontab.Numeral text) (hmin : F.min ≤ Crontab.value text) (hmax : Crontab.value text ≤ F.max) :
    parseRange text hasStep spec =
      .ok ((Crontab.value text : Int), if hasStep = true then spec.max else (Crontab.value text : Int)) := by
  have hstar : text ≠ ['*'] := by
    rintro rfl
    exact hn.not_mem (c := '*') (by decide) (List.mem_singleton_self _)
  have hdash : ¬ text.contains '-' = true := by
    rw [List.contains_iff_mem]
    exact hn.not_mem (by decide)
  unfold parseRange
  rw [if_neg (by simpa using hn.1), if_neg hstar, if_neg hdash, (parseNumber_ok hF).mpr ⟨hn, rfl, hmin, hmax⟩]
  rfl

theorem parseRange_pair {a b : List Char} {hasStep : Bool} {spec : FieldSpec} {F : Crontab.Field} (hF : SpecOf spec F)
    (ha : Crontab.Numeral a) (hb : Crontab.Numeral b) (hmin : F.min ≤ Crontab.value a)
    (hle : Crontab.value a ≤ Crontab.value b) (hmax : Crontab.value b ≤ F.max) :
    parseRange (a ++ '-' :: b) hasStep spec = .ok ((Crontab.value a : Int), (Crontab.value b : Int)) := by
  have hsplit : (a ++ '-' :: b).splitOn '-' = [a, b] :=
    splitOn_two_iff.mpr ⟨rfl, ha.not_mem (by decide), hb.not_mem (by decide)⟩
  have hempty : (a.isEmpty || b.isEmpty) = false := by simp [ha.1, hb.1]
  have hlo := (parseNumber_ok hF).mpr ⟨ha, rfl, hmin, Nat.le_trans hle hmax⟩
  have hhi := (parseNumber_ok hF).mpr ⟨hb, rfl, Nat.le_trans hmin hle, hmax⟩
  have hstar : a ++ '-' :: b ≠ ['*'] := by
    intro h
    have : '-' ∈ ['*'] := by rw [← h]; simp
    exact absurd this (by decide)
  unfold parseRange
  rw [if_neg (by simp), if_neg hstar, if_pos (by simp)]
  simp only [hsplit, hempty, Bool.false_eq_true, if_false]
  refine bind_eq_ok.mpr ⟨_, hlo, bind_eq_ok.mpr ⟨_, hhi, ?_⟩⟩
  rw [if_neg (by omega)]

theorem span_of_parseRange {range : List Char} {hasStep : Bool} {spec : FieldSpec} {F : Crontab.Field} (hF : SpecOf spec F)
    {lo hi : Int} (h : parseRange range hasStep spec = .ok (lo, hi)) :
    ∃ l h, Crontab.Span F range hasStep l h ∧ lo = (l : Int) ∧ hi = (h : Int) := by
  unfold parseRange at h
  split at h
  · cases h
  split at h
  · rename_i hstar
    cases h
    rw [hstar]
    exact ⟨F.min, F.max, .star, hF.min, hF.max⟩
  split at h
  · split at h
    · rename_i a b hab
      obtain ⟨rfl, _, _⟩ := splitOn_two_iff.mp hab
      split at h
      · cases h
      obtain ⟨x, ha, h⟩ := bind_eq_ok.mp h
      obtain ⟨y, hb, h⟩ := bind_eq_ok.mp h
      split at h
      · cases h
      rename_i hle
      cases h
      obtain ⟨hna, rfl, hamin, _⟩ := (parseNumber_ok hF).mp ha
      obtain ⟨hnb, rfl, _, hbmax⟩ := (parseNumber_ok hF).mp hb
      exact ⟨_, _, .range hna hnb hamin (by omega) hbmax, rfl, rfl⟩
    · cases h
  · obtain ⟨x, hn, h⟩ := bind_eq_ok.mp h
    obtain ⟨hnum, rfl, hmin, hmax⟩ := (parseNumber_ok hF).mp hn
    cases hasStep with
    | false => cases h; exact ⟨_, _, .number hnum hmin hmax, rfl, rfl⟩
    | true => cases h; exact ⟨_, _, .numberUp hnum hmin hmax, rfl, hF.max⟩

theorem parseRange_ok {range : List Char} {hasStep : Bool} {spec : FieldSpec} {F : Crontab.Field} (hF : SpecOf spec F)
    {lo hi : Int} :
    parseRange range hasStep spec = .ok (lo, hi) ↔
      ∃ l h, Crontab.Span F range hasStep l h ∧ lo = (l : Int) ∧ hi = (h : Int) := by
  constructor
  · exact span_of_parseRange hF
  · rintro ⟨l, h, hspan, rfl, rfl⟩
    cases hspan with
    | star =>
      unfold parseRange
      rw [if_neg (by decide), if_pos rfl, hF.min, hF.max]
    | number hn hmin hmax =>
      rw [parseRange_number hF hn hmin hmax]
      rfl
    | numberUp hn hmin hmax =>
      rw [parseRange_number hF hn hmin hmax, ← hF.max]
      rfl
    | range ha hb hmin hle hmax => exact parseRange_pair hF ha hb hmin hle hmax

/-- What `expand_item` starts its loop with: the ends of the range and the step. -/
def loopOf (item : List Char) (spec : FieldSpec) : Option (Int × Int × Int) :=
  let parts := item.splitOn '/'
  if parts.length > 2 || parts[1]? == some [] then none
  else
    (parseStep item parts[1]? spec).toOption.bind fun step =>
      (parseRange (parts.head?.getD []) parts[1]?.isSome spec).toOption.map fun r => (r.1, r.2, step)

theorem expandItem_loopOf (item : List Char) (spec : FieldSpec) :
    (expandItem item spec).toOption = (loopOf item spec).map fun l => expandSteps 128 l.1 l.2.1 l.2.2 := by
  unfold expandItem loopOf
  simp only
  split
  · rfl
  · cases parseStep item (item.splitOn '/')[1]? spec with
    | error e => rfl
    | ok step =>
      simp only [bind, Except.bind, Except.toOption, Option.bind_some]
      cases parseRange ((item.splitOn '/').head?.getD []) (item.splitOn '/')[1]?.isSome spec with
      | error e => rfl
      | ok r => rfl

theorem loopOf_plain {item : List Char} (h : '/' ∉ item) (spec : FieldSpec) :
    loopOf item spec = (parseRange item false spec).toOption.map fun r => (r.1, r.2, 1) := by
  unfold loopOf
  simp only [splitOn_one_iff.mpr ⟨rfl, h⟩, List.head?_cons, Option.getD_some, List.length_singleton, List.getElem?_cons_succ,
    List.getElem?_nil, Option.isSome_none]
  rw [if_neg (by decide)]
  rfl

theorem loopOf_stepped {range k : List Char} (hr : '/' ∉ range) (hk : '/' ∉ k) (hne : k ≠ []) (spec : FieldSpec) :
    loopOf (range ++ '/' :: k) spec =
      (parseStep (range ++ '/' :: k) (some k) spec).toOption.bind fun step =>
        (parseRange range true spec).toOption.map fun r => (r.1, r.2, step) := by
  unfold loopOf
  simp only [splitOn_two_iff.mpr ⟨rfl, hr, hk⟩, List.head?_cons, Option.getD_some, List.length_cons, List.length_nil,
    List.getElem?_cons_succ, List.getElem?_cons_zero, Option.isSome_some]
  rw [if_neg (by simp [hne])]

/-- The item of a loop. -/
theorem item_of_loopOf {item : List Char} {spec : FieldSpec} {F : Crontab.Field} (hF : SpecOf spec F) {l : Int × Int × Int}
    (h : loopOf item spec = some l) :
    ∃ lo hi step : Nat, Crontab.Item F item lo hi step ∧ (step : Int) ≤ i64Max ∧ l = ((lo : Int), (hi : Int), (step : Int)) := by
  match hs : item.splitOn '/' with
  | [] => exact absurd hs (List.splitOn_ne_nil '/' item)
  | [range] =>
    obtain ⟨rfl, hslash⟩ := splitOn_one_iff.mp hs
    rw [loopOf_plain hslash] at h
    cases hr : parseRange item false spec with
    | error e => rw [hr] at h; cases h
    | ok r =>
      rw [hr] at h
      cases h
      obtain ⟨lo, hi⟩ := r
      obtain ⟨l, u, hspan, rfl, rfl⟩ := (parseRange_ok hF).mp hr
      exact ⟨l, u, 1, .plain hspan, by decide, rfl⟩
  | [range, k] =>
    obtain ⟨rfl, hr, hk⟩ := splitOn_two_iff.mp hs
    by_cases hne : k = []
    · rw [hne] at hs h
      unfold loopOf at h
      rw [hs] at h
      simp at h
    rw [loopOf_stepped hr hk hne] at h
    cases hst : parseStep (range ++ '/' :: k) (some k) spec with
    | error e => rw [hst] at h; cases h
    | ok n =>
      cases hra : parseRange range true spec with
      | error e => rw [hst, hra] at h; cases h
      | ok r =>
        rw [hst, hra] at h
        cases h
        obtain ⟨lo, hi⟩ := r
        obtain ⟨l, u, hspan, rfl, rfl⟩ := (parseRange_ok hF).mp hra
        rcases parseStep_ok.mp hst with ⟨hno, _⟩ | ⟨k', hk', hnum, hpos, hfits, rfl⟩
        · cases hno
        · cases hk'
          exact ⟨l, u, _, .stepped hspan hnum hpos, hfits, rfl⟩
  | _ :: _ :: _ :: _ =>
    unfold loopOf at h
    rw [hs] at h
    simp at h

/-- The loops are those of the language's items whose step has 64 bits. -/
theorem loopOf_eq_some {item : List Char} {spec : FieldSpec} {F : Crontab.Field} (hF : SpecOf spec F) {l : Int × Int × Int} :
    loopOf item spec = some l ↔
      ∃ lo hi step : Nat, Crontab.Item F item lo hi step ∧ (step : Int) ≤ i64Max ∧ l = ((lo : Int), (hi : Int), (step : Int)) := by
  constructor
  · exact item_of_loopOf hF
  · rintro ⟨lo, hi, step, hitem, hfits, rfl⟩
    cases hitem with
    | plain hspan =>
      rw [loopOf_plain hspan.no_slash, (parseRange_ok hF).mpr ⟨_, _, hspan, rfl, rfl⟩]
      rfl
    | @stepped range k _ _ hspan hk hpos =>
      rw [loopOf_stepped hspan.no_slash (hk.not_mem (by decide)) hk.1,
        parseStep_ok.mpr (.inr ⟨k, rfl, hk, hpos, hfits, rfl⟩), (parseRange_ok hF).mpr ⟨_, _, hspan, rfl, rfl⟩]
      rfl

theorem expandItem_ok {item : List Char} {spec : FieldSpec} {vs : List Int} :
    expandItem item spec = .ok vs ↔ ∃ l, loopOf item spec = some l ∧ vs = expandSteps 128 l.1 l.2.1 l.2.2 := by
  have h := expandItem_loopOf item spec
  cases hi : expandItem item spec with
  | error e =>
    rw [hi] at h
    cases hl : loopOf item spec with
    | none => simp
    | some l => rw [hl] at h; cases h
  | ok us =>
    rw [hi] at h
    cases hl : loopOf item spec with
    | none => rw [hl] at h; cases h
    | some l =>
      rw [hl] at h
      obtain rfl := Option.some.inj h
      simp only [Except.ok.injEq, Option.some.injEq, exists_eq_left']
      exact eq_comm

/-! ## The loop -/

section Loop

variable {lo hi step : Nat}

/-- One pass of the loop. -/
def pass (step v : Int) : Int := i64 (v + step)

/-- Where the step is so wide that it wraps, two passes take a value down. -/
theorem wide_ends {step k hi : Int} (hk : step + k = i64Max + 1) (hk1 : 1 ≤ k) (hk60 : k ≤ 60) (hhi : hi ≤ 59) (m : Nat) :
    ∀ v : Int, -60 ≤ v → v ≤ 59 → v ≤ m → ∃ n, n ≤ 2 * m + 1 ∧ hi < (pass step)^[n] v := by
  have hmax : i64Max = 9223372036854775807 := rfl
  induction m using Nat.strong_induction_on with
  | _ m ih =>
    intro v hlow hhigh hm
    by_cases hwrap : v < k
    · refine ⟨1, by omega, ?_⟩
      have hone : pass step v = v + step := i64_of_le (by omega) (by omega)
      rw [Function.iterate_one, hone]
      omega
    · have hone : pass step v = v + step - 18446744073709551616 := i64_wraps (by omega) (by omega)
      have htwo : pass step (pass step v) = v - 2 * k := by
        rw [hone]
        unfold pass
        unfold i64Max at hk
        have hvalue : v + step - 18446744073709551616 + step = v - 2 * k := by omega
        rw [hvalue]
        exact i64_exact (by unfold i64Max; omega) (by unfold i64Max; omega)
      obtain ⟨n, hn, hend⟩ := ih (m - 1) (by omega) (v - 2 * k) (by omega) (by omega) (by omega)
      refine ⟨n + 2, by omega, ?_⟩
      rw [Function.iterate_add_apply]
      simpa [htwo] using hend

theorem narrow_ends {step hi : Int} (hs : 1 ≤ step) (hhi : hi ≤ 59) (hfits : hi + step ≤ i64Max) (m : Nat) :
    ∀ v : Int, 0 ≤ v → hi - v < m → ∃ n, n ≤ m ∧ hi < (pass step)^[n] v := by
  induction m with
  | zero => exact fun v _ hm => ⟨0, Nat.le_refl _, by simpa using by omega⟩
  | succ m ih =>
    intro v hv hm
    by_cases hend : hi < v
    · exact ⟨0, by omega, hend⟩
    · have hone : pass step v = v + step := i64_of_le (by omega) (by omega)
      obtain ⟨n, hn, h⟩ := ih (v + step) (by omega) (by omega)
      refine ⟨n + 1, by omega, ?_⟩
      rw [Function.iterate_succ_apply, hone]
      exact h

/-- The loop leaves the range after fewer than 128 passes. -/
theorem loop_ends (hhi : hi ≤ 59) (hle : lo ≤ hi) (hs : 0 < step) (hstep : (step : Int) ≤ i64Max) :
    ∃ n, n < 128 ∧ (hi : Int) < (pass step)^[n] lo := by
  by_cases hfits : (hi : Int) + step ≤ i64Max
  · obtain ⟨n, hn, h⟩ := narrow_ends (by omega) (by omega) hfits 61 lo (by omega) (by omega)
    exact ⟨n, by omega, h⟩
  · obtain ⟨n, hn, h⟩ := wide_ends (k := i64Max + 1 - step) (by omega : (step : Int) + (i64Max + 1 - step) = _) (by omega) (by omega)
      (by omega : (hi : Int) ≤ 59) 59 lo (by omega) (by omega) (by omega)
    exact ⟨n, by omega, h⟩

/-- So its result does not depend on how many passes are allowed beyond that. -/
theorem expandSteps_fuel {hi step : Int} (n : Nat) : ∀ {v : Int} {f f' : Nat}, hi < (pass step)^[n] v → n < f → n < f' →
    expandSteps f v hi step = expandSteps f' v hi step := by
  induction n with
  | zero =>
    intro v f f' h hf hf'
    obtain ⟨f, rfl⟩ : ∃ g, f = g + 1 := ⟨f - 1, by omega⟩
    obtain ⟨f', rfl⟩ : ∃ g, f' = g + 1 := ⟨f' - 1, by omega⟩
    have h : hi < v := h
    unfold expandSteps
    rw [if_neg (by omega), if_neg (by omega)]
  | succ n ih =>
    intro v f f' h hf hf'
    obtain ⟨f, rfl⟩ : ∃ g, f = g + 1 := ⟨f - 1, by omega⟩
    obtain ⟨f', rfl⟩ : ∃ g, f' = g + 1 := ⟨f' - 1, by omega⟩
    rw [Function.iterate_succ_apply] at h
    unfold expandSteps
    rw [show i64 (v + step) = pass step v from rfl, @ih (pass step v) f f' h (by omega) (by omega)]

/-- Without an overflow, the loop lists the values at the step's distance. -/
theorem mem_expandSteps {hi step : Int} (hs : 1 ≤ step) (hhi : hi ≤ 59) (fuel : Nat) :
    ∀ v : Int, 0 ≤ v → v + step ≤ i64Max → hi - v < fuel →
      ∀ u, u ∈ expandSteps fuel v hi step ↔ ∃ j : Nat, u = v + j * step ∧ u ≤ hi := by
  have hmax : i64Max = 9223372036854775807 := rfl
  induction fuel with
  | zero =>
    intro v hv _ hf u
    refine iff_of_false List.not_mem_nil ?_
    rintro ⟨j, rfl, hle⟩
    have : 0 ≤ (j : Int) * step := Int.mul_nonneg (by omega) (by omega)
    omega
  | succ fuel ih =>
    intro v hv hfits hf u
    unfold expandSteps
    split
    · rename_i hle
      have hone : i64 (v + step) = v + step := i64_of_le (by omega) hfits
      rw [hone, List.mem_cons]
      by_cases hnext : v + step ≤ hi
      · rw [ih (v + step) (by omega) (by omega) (by omega)]
        constructor
        · rintro (rfl | ⟨j, rfl, hu⟩)
          · exact ⟨0, by simp, hle⟩
          · exact ⟨j + 1, by push_cast; ring, hu⟩
        · rintro ⟨j, rfl, hu⟩
          cases j with
          | zero => exact .inl (by simp)
          | succ j => exact .inr ⟨j, by push_cast; ring, hu⟩
      · have hempty : expandSteps fuel (v + step) hi step = [] := by
          cases fuel with
          | zero => rfl
          | succ fuel =>
            unfold expandSteps
            rw [if_neg hnext]
        rw [hempty]
        constructor
        · rintro (rfl | hu)
          · exact ⟨0, by simp, hle⟩
          · cases hu
        · rintro ⟨j, rfl, hu⟩
          cases j with
          | zero => exact .inl (by simp)
          | succ j =>
            have hj : 0 ≤ (j : Int) * step := Int.mul_nonneg (by omega) (by omega)
            push_cast at hu
            rw [Int.add_mul, Int.one_mul] at hu
            omega
    · rename_i hgt
      refine iff_of_false List.not_mem_nil ?_
      rintro ⟨j, rfl, hle⟩
      have : 0 ≤ (j : Int) * step := Int.mul_nonneg (by omega) (by omega)
      omega

/-- No pass leaves 64 bits exactly when the first does not. -/
theorem no_overflow_iff (hhi : hi ≤ 59) (hle : lo ≤ hi) (hs : 0 < step) :
    (∀ v ∈ expandSteps 128 lo hi step, v + step ≤ i64Max) ↔ (lo : Int) + step ≤ i64Max := by
  have hmax : i64Max = 9223372036854775807 := rfl
  constructor
  · intro h
    refine h lo ?_
    unfold expandSteps
    rw [if_pos (by omega)]
    exact List.mem_cons_self ..
  · intro hfits v hv
    obtain ⟨j, rfl, hu⟩ := (mem_expandSteps (by omega) (by omega) 128 lo (by omega) hfits (by omega) v).mp hv
    cases j with
    | zero => simpa using hfits
    | succ j =>
      -- A second value means a step within the field's range.
      have hj : 0 ≤ (j : Int) * step := Int.mul_nonneg (by omega) (by omega)
      push_cast at hu ⊢
      rw [Int.add_mul, Int.one_mul] at hu ⊢
      omega

theorem mem_expandSteps_steps (hhi : hi ≤ 59) (hs : 0 < step) (hfits : (lo : Int) + step ≤ i64Max) {u : Int} :
    u ∈ expandSteps 128 lo hi step ↔ ∃ v : Nat, u = v ∧ Crontab.Steps lo hi step v := by
  rw [mem_expandSteps (by omega) (by omega) 128 lo (by omega) hfits (by omega)]
  constructor
  · rintro ⟨j, rfl, hu⟩
    exact ⟨lo + j * step, by push_cast; rfl, j, rfl, by omega⟩
  · rintro ⟨v, rfl, j, rfl, hv⟩
    exact ⟨j, by push_cast; rfl, by omega⟩

/-- A value that a step's wrapped additions reach from the first one: two of them take a
    value down by twice what the step lacks to 2^63. -/
def Wraps (step lo v : Nat) : Prop := ∃ m : Nat, 0 < m ∧ v + 2 * (m * (2 ^ 63 - step)) = lo

theorem Wraps.lt {v : Nat} (h : Wraps step lo v) : v + 2 * (2 ^ 63 - step) ≤ lo := by
  obtain ⟨m, hm, rfl⟩ := h
  have := Nat.le_mul_of_pos_left (2 ^ 63 - step) hm
  omega

/-- Of a loop that wraps, what lies above zero. -/
theorem mem_expandSteps_wide {step k hi : Int} (hk : step + k = i64Max + 1) (hk1 : 1 ≤ k) (hk60 : k ≤ 60) (hhi : hi ≤ 59)
    (m : Nat) : ∀ (v : Int) (fuel : Nat), -60 ≤ v → v ≤ hi → v ≤ m → 2 * m < fuel → ∀ u : Int, 0 ≤ u →
      (u ∈ expandSteps (fuel + 2) v hi step ↔ ∃ j : Nat, u + 2 * (j * k) = v) := by
  have hmax : i64Max = 9223372036854775807 := rfl
  induction m using Nat.strong_induction_on with
  | _ m ih =>
    intro v fuel hlow hhigh hm hf u hu
    unfold expandSteps
    rw [if_pos hhigh, List.mem_cons]
    by_cases hwrap : v < k
    · have hone : i64 (v + step) = v + step := i64_of_le (by omega) (by omega)
      have hend : expandSteps (fuel + 1) (v + step) hi step = [] := by
        unfold expandSteps
        rw [if_neg (by omega)]
      rw [hone, hend]
      constructor
      · rintro (rfl | h)
        · exact ⟨0, by simp⟩
        · cases h
      · rintro ⟨j, rfl⟩
        cases j with
        | zero => exact .inl (by simp)
        | succ j =>
          have hj : 0 ≤ (j : Int) * k := Int.mul_nonneg (by omega) (by omega)
          push_cast at hwrap
          rw [Int.add_mul, Int.one_mul] at hwrap
          omega
    · have hone : i64 (v + step) = v + step - 18446744073709551616 := i64_wraps (by omega) (by omega)
      have htwo : i64 (v + step - 18446744073709551616 + step) = v - 2 * k := by
        unfold i64Max at hk
        have hvalue : v + step - 18446744073709551616 + step = v - 2 * k := by omega
        rw [hvalue]
        exact i64_exact (by unfold i64Max; omega) (by unfold i64Max; omega)
      rw [hone]
      unfold expandSteps
      rw [if_pos (by omega), List.mem_cons, htwo]
      obtain ⟨fuel, rfl⟩ : ∃ n, fuel = n + 2 := ⟨fuel - 2, by omega⟩
      rw [ih (m - 1) (by omega) (v - 2 * k) fuel (by omega) (by omega) (by omega) (by omega) u hu]
      constructor
      · rintro (rfl | rfl | ⟨j, hj⟩)
        · exact ⟨0, by simp⟩
        · omega
        · refine ⟨j + 1, ?_⟩
          push_cast
          rw [Int.add_mul, Int.one_mul]
          omega
      · rintro ⟨j, hj⟩
        cases j with
        | zero => exact .inl (by simpa using hj)
        | succ j =>
          push_cast at hj
          rw [Int.add_mul, Int.one_mul] at hj
          exact .inr (.inr ⟨j, by omega⟩)

/-- What lies above zero in an item's list: the values at the step's distance, and those
    that wrapped additions reach. -/
theorem mem_expandSteps_all (hhi : hi ≤ 59) (hle : lo ≤ hi) (hs : 0 < step) (hstep : (step : Int) ≤ i64Max) {v : Nat} :
    (v : Int) ∈ expandSteps 128 lo hi step ↔ Crontab.Steps lo hi step v ∨ Wraps step lo v := by
  have hmax : i64Max = 9223372036854775807 := rfl
  by_cases hfits : (lo : Int) + step ≤ i64Max
  · rw [mem_expandSteps_steps hhi hs hfits]
    constructor
    · rintro ⟨w, hw, hsteps⟩
      obtain rfl : v = w := by omega
      exact .inl hsteps
    · rintro (hsteps | hwraps)
      · exact ⟨v, rfl, hsteps⟩
      · have := hwraps.lt
        omega
  · have hone : ∀ j : Nat, ((j * (2 ^ 63 - step) : Nat) : Int) = j * (i64Max + 1 - step) := by
      intro j
      rw [Nat.cast_mul]
      congr 1
      omega
    rw [mem_expandSteps_wide (k := i64Max + 1 - step) (by omega) (by omega) (by omega) (by omega : (hi : Int) ≤ 59) 59 lo 126
      (by omega) (by omega) (by omega) (by omega) v (by omega)]
    constructor
    · rintro ⟨j, hj⟩
      rw [← hone] at hj
      cases j with
      | zero => exact .inl ⟨0, by omega, by omega⟩
      | succ j => exact .inr ⟨j + 1, by omega, by omega⟩
    · rintro (⟨j, rfl, hv⟩ | ⟨j, hj, he⟩)
      · cases j with
        | zero => exact ⟨0, by simp⟩
        | succ j =>
          rw [Nat.add_mul, Nat.one_mul] at hv
          omega
      · refine ⟨j, ?_⟩
        rw [← hone]
        omega

/-- An overflow puts a value below zero into the list. -/
theorem overflow_below (hhi : hi ≤ 59) (hle : lo ≤ hi) (hstep : (step : Int) ≤ i64Max) (hover : ¬ (lo : Int) + step ≤ i64Max) :
    ∃ u ∈ expandSteps 128 lo hi step, u < 0 := by
  have hmax : i64Max = 9223372036854775807 := rfl
  have hone : i64 ((lo : Int) + step) = (lo : Int) + step - 18446744073709551616 := i64_wraps (by omega) (by omega)
  refine ⟨(lo : Int) + step - 18446744073709551616, ?_, by omega⟩
  unfold expandSteps
  rw [if_pos (by omega), hone]
  refine List.mem_cons_of_mem _ ?_
  unfold expandSteps
  rw [if_pos (by omega)]
  exact List.mem_cons_self ..

end Loop

/-! ## Fields -/

/-- The loop of an item, when it starts one, does not overflow. -/
def LoopFits (spec : FieldSpec) (item : List Char) : Prop := ∀ l, loopOf item spec = some l → l.1 + l.2.2 ≤ i64Max

section Fields

variable {spec : FieldSpec} {F : Crontab.Field} {field : List Char}

theorem mem_valueSet {l : List Int} {v : Int} : v ∈ valueSet l ↔ v ∈ l := by
  unfold valueSet
  rw [List.mem_mergeSort, List.mem_dedup]

/-- A field parses exactly when it is one of the language's and its steps have 64 bits. -/
theorem parseField_ok_iff (hF : SpecOf spec F) :
    (∃ p, parseField field spec = .ok p) ↔ ∀ item ∈ field.splitOn ',', ∃ l, loopOf item spec = some l := by
  by_cases hstar : field = ['*']
  · rw [hstar]
    refine iff_of_true ⟨_, by unfold parseField; rw [if_pos rfl]⟩ ?_
    intro item hitem
    rw [List.splitOn_eq_singleton (by decide), List.mem_singleton] at hitem
    rw [hitem]
    exact ⟨_, (loopOf_eq_some hF).mpr ⟨_, _, _, .plain .star, by decide, rfl⟩⟩
  · unfold parseField
    rw [if_neg hstar]
    constructor
    · intro ⟨p, h⟩ item hitem
      obtain ⟨ys, hm, _⟩ := bind_eq_ok.mp h
      obtain ⟨y, _, hy⟩ := (mapM_ok_iff hm).1 item hitem
      obtain ⟨l, hl, _⟩ := expandItem_ok.mp hy
      exact ⟨l, hl⟩
    · intro h
      obtain ⟨ys, hys⟩ := mapM_ok_exists (f := fun item => expandItem item spec) (l := field.splitOn ',') fun item hitem => by
        obtain ⟨l, hl⟩ := h item hitem
        exact ⟨_, expandItem_ok.mpr ⟨l, hl, rfl⟩⟩
      exact ⟨⟨valueSet ys.flatten, true⟩, bind_eq_ok.mpr ⟨ys, hys, rfl⟩⟩

theorem loopOf_star (hF : SpecOf spec F) : loopOf ['*'] spec = some ((F.min : Int), (F.max : Int), 1) :=
  (loopOf_eq_some hF).mpr ⟨_, _, _, .plain .star, by decide, rfl⟩

/-- The values of a parsed field: those of its items' loops. -/
theorem parseField_values (hF : SpecOf spec F) {p : ParsedField} (h : parseField field spec = .ok p) :
    (p.restricted = true ↔ field ≠ ['*']) ∧
      ∀ v, v ∈ p.values ↔ ∃ item ∈ field.splitOn ',', ∃ l, loopOf item spec = some l ∧ v ∈ expandSteps 128 l.1 l.2.1 l.2.2 := by
  unfold parseField at h
  by_cases hstar : field = ['*']
  · rw [if_pos hstar] at h
    cases h
    refine ⟨by simp [hstar], fun v => ?_⟩
    have hle := hF.le
    have hsmall := hF.small
    have hmem := @mem_expandSteps_steps F.min F.max 1 hF.small (by omega) (by unfold i64Max; omega) v
    rw [hstar, List.splitOn_eq_singleton (by decide)]
    simp only [List.mem_singleton, exists_eq_left, loopOf_star hF, Option.some.injEq, exists_eq_left', List.mem_map,
      List.bind_eq_flatMap, List.mem_flatMap, List.pure_def, List.mem_range, hF.min, hF.max]
    constructor
    · rintro ⟨_, ⟨i, hi, rfl⟩, rfl⟩
      exact hmem.mpr ⟨F.min + i, by push_cast; rfl, i, by omega, by omega⟩
    · intro hv
      obtain ⟨w, rfl, j, hj, hw⟩ := hmem.mp hv
      exact ⟨_, ⟨w - F.min, by omega, rfl⟩, by omega⟩
  · rw [if_neg hstar] at h
    obtain ⟨ys, hm, h⟩ := bind_eq_ok.mp h
    cases h
    obtain ⟨hfrom, hto⟩ := mapM_ok_iff hm
    refine ⟨by simp [hstar], fun v => ?_⟩
    rw [mem_valueSet, List.mem_flatten]
    constructor
    · rintro ⟨vs, hvs, hv⟩
      obtain ⟨item, hitem, hok⟩ := hto vs hvs
      obtain ⟨l, hl, rfl⟩ := expandItem_ok.mp hok
      exact ⟨item, hitem, l, hl, hv⟩
    · rintro ⟨item, hitem, l, hl, hv⟩
      obtain ⟨vs, hvs, hok⟩ := hfrom item hitem
      obtain ⟨l', hl', rfl⟩ := expandItem_ok.mp hok
      obtain rfl := Option.some.inj (hl.symm.trans hl')
      exact ⟨_, hvs, hv⟩

/-- Without an overflow, a parsed field has the values it stands for. -/
theorem parseField_denotes (hF : SpecOf spec F) {p : ParsedField} (h : parseField field spec = .ok p)
    (hfits : ∀ item ∈ field.splitOn ',', LoopFits spec item) (v : Int) :
    v ∈ p.values ↔ ∃ w : Nat, v = w ∧ Crontab.Denotes F field w := by
  have hall := (parseField_ok_iff hF).mp ⟨p, h⟩
  rw [(parseField_values hF h).2]
  constructor
  · rintro ⟨item, hitem, l, hl, hv⟩
    have hfit := hfits item hitem l hl
    obtain ⟨lo, hi, step, hI, _, rfl⟩ := (loopOf_eq_some hF).mp hl
    obtain ⟨_, _, hhi, hs⟩ := hI.le hF.le
    obtain ⟨w, rfl, hw⟩ := (mem_expandSteps_steps (Nat.le_trans hhi hF.small) hs hfit).mp hv
    exact ⟨w, rfl, item, hitem, lo, hi, step, hI, hw⟩
  · rintro ⟨w, rfl, item, hitem, lo, hi, step, hI, hw⟩
    obtain ⟨l, hl⟩ := hall item hitem
    obtain ⟨_, _, hhi, hs⟩ := hI.le hF.le
    obtain ⟨lo', hi', step', hI', _, rfl⟩ := (loopOf_eq_some hF).mp hl
    obtain ⟨rfl, rfl, rfl⟩ := hI.unique hI'
    exact ⟨item, hitem, _, hl, (mem_expandSteps_steps (Nat.le_trans hhi hF.small) hs (hfits item hitem _ hl)).mpr ⟨w, rfl, hw⟩⟩

/-- What the parser's loops put into a field's set: what the items stand for, and what
    wrapped additions reach. -/
def Reaches : Crontab.Reading := fun F field v =>
  ∃ text ∈ field.splitOn ',', ∃ lo hi step, Crontab.Item F text lo hi step ∧ (Crontab.Steps lo hi step v ∨ Wraps step lo v)

theorem mem_parseField (hF : SpecOf spec F) {p : ParsedField} (h : parseField field spec = .ok p) {v : Int} (hv : 0 ≤ v) :
    v ∈ p.values ↔ Reaches F field v.toNat := by
  have hall := (parseField_ok_iff hF).mp ⟨p, h⟩
  obtain ⟨n, rfl⟩ := Int.eq_ofNat_of_zero_le hv
  rw [(parseField_values hF h).2, Int.toNat_natCast]
  unfold Reaches
  constructor
  · rintro ⟨item, hitem, l, hl, hv⟩
    obtain ⟨lo, hi, step, hI, hstep, rfl⟩ := (loopOf_eq_some hF).mp hl
    obtain ⟨_, hle, hhi, hs⟩ := hI.le hF.le
    exact ⟨item, hitem, lo, hi, step, hI, (mem_expandSteps_all (Nat.le_trans hhi hF.small) hle hs hstep).mp hv⟩
  · rintro ⟨item, hitem, lo, hi, step, hI, hw⟩
    obtain ⟨l, hl⟩ := hall item hitem
    obtain ⟨_, hle, hhi, hs⟩ := hI.le hF.le
    obtain ⟨lo', hi', step', hI', hstep, rfl⟩ := (loopOf_eq_some hF).mp hl
    obtain ⟨rfl, rfl, rfl⟩ := hI.unique hI'
    exact ⟨item, hitem, _, hl, (mem_expandSteps_all (Nat.le_trans hhi hF.small) hle hs hstep).mpr hw⟩

/-- Without an overflow that is what the field stands for. -/
theorem reaches_of_fits (hF : SpecOf spec F) {p : ParsedField} (h : parseField field spec = .ok p)
    (hfits : ∀ item ∈ field.splitOn ',', LoopFits spec item) (v : Nat) : Reaches F field v ↔ Crontab.Denotes F field v := by
  have hv := mem_parseField hF h (v := v) (by omega)
  rw [parseField_denotes hF h hfits, Int.toNat_natCast] at hv
  rw [← hv]
  constructor
  · rintro ⟨w, hw, hd⟩
    obtain rfl : v = w := by omega
    exact hd
  · intro hd
    exact ⟨v, rfl, hd⟩

/-- Of an item, whose loop overflows, the field gets a value below zero. -/
theorem parseField_overflow (hF : SpecOf spec F) {p : ParsedField} (h : parseField field spec = .ok p) {item : List Char}
    (hitem : item ∈ field.splitOn ',') (hover : ¬ LoopFits spec item) : ∃ v ∈ p.values, v < 0 := by
  unfold LoopFits at hover
  push Not at hover
  obtain ⟨l, hl, hgt⟩ := hover
  obtain ⟨lo, hi, step, hI, hstep, rfl⟩ := (loopOf_eq_some hF).mp hl
  obtain ⟨_, hle, hhi, _⟩ := hI.le hF.le
  obtain ⟨u, hu, hneg⟩ := overflow_below (Nat.le_trans hhi hF.small) hle hstep (Int.not_le.mpr hgt)
  exact ⟨u, ((parseField_values hF h).2 u).mpr ⟨item, hitem, _, hl, hu⟩, hneg⟩

end Fields

/-! ## Expressions -/

def fieldsOf (expr : String) : Option Crontab.Fields := Crontab.Fields.ofList (splitWhitespace expr)

/-- The parser goes through the five fields in their order. -/
theorem parseCronExpression_of_fields {expr : String} {f : Crontab.Fields} (h : fieldsOf expr = some f) :
    parseCronExpression expr = (do
      let minutes ← parseField f.minute minuteField
      let hours ← parseField f.hour hourField
      let dom ← parseField f.dayOfMonth domField
      let months ← parseField f.month monthField
      let dow ← parseField f.dayOfWeek dowField
      .ok ⟨minutes.values, hours.values, dom.values, months.values,
        valueSet (dow.values.map fun v => if v = 7 then 0 else v), dom.restricted, dow.restricted⟩) := by
  have hsplit : splitWhitespace expr = [f.minute, f.hour, f.dayOfMonth, f.month, f.dayOfWeek] :=
    Crontab.Fields.ofList_eq_some.mp h
  unfold parseCronExpression
  rw [hsplit]

theorem parseCronExpression_of_none {expr : String} (h : fieldsOf expr = none) : ∃ e, parseCronExpression expr = .error e := by
  unfold fieldsOf at h
  unfold parseCronExpression
  generalize splitWhitespace expr = l at *
  rcases l with _ | ⟨a, _ | ⟨b, _ | ⟨c, _ | ⟨d, _ | ⟨e, _ | ⟨g, l⟩⟩⟩⟩⟩⟩
  all_goals first
    | exact ⟨_, rfl⟩
    | cases h

/-- The fields with their specs, in the parser's order. -/
def specFields (f : Crontab.Fields) : List (FieldSpec × List Char) :=
  [(minuteField, f.minute), (hourField, f.hour), (domField, f.dayOfMonth), (monthField, f.month), (dowField, f.dayOfWeek)]

/-- The items whose loops are run, field by field up to the first error. -/
def reachedIn : List (FieldSpec × List Char) → List (FieldSpec × List Char)
  | [] => []
  | (spec, field) :: rest =>
    (if field = ['*'] then []
      else ((field.splitOn ',').takeWhile fun item => (loopOf item spec).isSome).map fun item => (spec, item)) ++
      if (parseField field spec).toOption.isSome then reachedIn rest else []

def reached (expr : String) : List (FieldSpec × List Char) := ((fieldsOf expr).map fun f => reachedIn (specFields f)).getD []

theorem mem_reachedIn {l : List (FieldSpec × List Char)} {e : FieldSpec × List Char} (h : e ∈ reachedIn l) :
    ∃ field, (e.1, field) ∈ l ∧ e.2 ∈ field.splitOn ',' := by
  induction l with
  | nil => cases h
  | cons x l ih =>
    obtain ⟨spec, field⟩ := x
    unfold reachedIn at h
    rcases List.mem_append.mp h with h | h
    · split at h
      · cases h
      · obtain ⟨item, hitem, rfl⟩ := List.mem_map.mp h
        exact ⟨field, List.mem_cons_self .., (List.takeWhile_prefix _).subset hitem⟩
    · split at h
      · obtain ⟨field', hmem, hitem⟩ := ih h
        exact ⟨field', List.mem_cons_of_mem _ hmem, hitem⟩
      · cases h

/-- When every field parses, every item's loop is run. -/
theorem reachedIn_all {l : List (FieldSpec × List Char)} (hF : ∀ e ∈ l, ∃ F, SpecOf e.1 F)
    (h : ∀ e ∈ l, ∃ p, parseField e.2 e.1 = .ok p) {e : FieldSpec × List Char} (he : e ∈ l) (hstar : e.2 ≠ ['*'])
    {item : List Char} (hitem : item ∈ e.2.splitOn ',') : (e.1, item) ∈ reachedIn l := by
  induction l with
  | nil => cases he
  | cons x l ih =>
    obtain ⟨⟨F, hspec⟩, hFtail⟩ := List.forall_mem_cons.mp hF
    obtain ⟨⟨p, hp⟩, htail⟩ := List.forall_mem_cons.mp h
    obtain ⟨spec, field⟩ := x
    unfold reachedIn
    rcases List.mem_cons.mp he with rfl | he
    · refine List.mem_append_left _ ?_
      have hall : ∀ i ∈ field.splitOn ',', (loopOf i spec).isSome = true := by
        intro i hi
        obtain ⟨l, hl⟩ := (parseField_ok_iff hspec).mp ⟨p, hp⟩ i hi
        rw [hl]
        rfl
      rw [if_neg hstar, List.takeWhile_eq_self_iff.mpr hall]
      exact List.mem_map_of_mem hitem
    · refine List.mem_append_right _ ?_
      simp only at hp
      rw [hp]
      exact ih hFtail htail he

theorem specFields_spec (f : Crontab.Fields) : ∀ e ∈ specFields f, ∃ F, SpecOf e.1 F := by
  simp only [specFields, List.forall_mem_cons]
  exact ⟨⟨_, minute_spec⟩, ⟨_, hour_spec⟩, ⟨_, dom_spec⟩, ⟨_, month_spec⟩, ⟨_, dow_spec⟩, fun e he => absurd he List.not_mem_nil⟩

/-- The fields of an accepted expression, and the schedule that is made of them. -/
structure ParsedAs (f : Crontab.Fields) (s : CronSchedule) : Prop where
  minutes : ∃ p, parseField f.minute minuteField = .ok p ∧ s.minutes = p.values
  hours : ∃ p, parseField f.hour hourField = .ok p ∧ s.hours = p.values
  dom : ∃ p, parseField f.dayOfMonth domField = .ok p ∧ s.dom = p.values ∧ s.domRestricted = p.restricted
  months : ∃ p, parseField f.month monthField = .ok p ∧ s.months = p.values
  dow : ∃ p, parseField f.dayOfWeek dowField = .ok p ∧ s.dow = valueSet (p.values.map fun v => if v = 7 then 0 else v) ∧
    s.dowRestricted = p.restricted

theorem parseCronExpression_ok {expr : String} {s : CronSchedule} (h : parseCronExpression expr = .ok s) :
    ∃ f, fieldsOf expr = some f ∧ ParsedAs f s := by
  cases hf : fieldsOf expr with
  | none =>
    obtain ⟨e, he⟩ := parseCronExpression_of_none hf
    rw [he] at h
    cases h
  | some f =>
    rw [parseCronExpression_of_fields hf] at h
    obtain ⟨p₁, h₁, h⟩ := bind_eq_ok.mp h
    obtain ⟨p₂, h₂, h⟩ := bind_eq_ok.mp h
    obtain ⟨p₃, h₃, h⟩ := bind_eq_ok.mp h
    obtain ⟨p₄, h₄, h⟩ := bind_eq_ok.mp h
    obtain ⟨p₅, h₅, h⟩ := bind_eq_ok.mp h
    cases h
    exact ⟨f, rfl, ⟨p₁, h₁, rfl⟩, ⟨p₂, h₂, rfl⟩, ⟨p₃, h₃, rfl, rfl⟩, ⟨p₄, h₄, rfl⟩, ⟨p₅, h₅, rfl, rfl⟩⟩

/-! ## The schedule -/

theorem civilOfDay_eq (day : Int) : civilOfDay day = ((Calendar.ofDay day).month, (Calendar.ofDay day).day) := by
  obtain ⟨k, hk⟩ : ∃ k : Nat, (day + 719468) % 146097 = k := ⟨((day + 719468) % 146097).toNat, by omega⟩
  obtain ⟨hy, _, _⟩ := Calendar.yearOfEra_spec (n := k) (by omega)
  have hyear : (((k : Int) - k / 1460 + k / 36524 - k / 146096) / 365 : Int) = Calendar.yearOfEra k := by
    unfold Calendar.yearOfEra
    omega
  have hmarch : Calendar.marchYear (day + 719468) = (day + 719468) / 146097 * 400 + Calendar.yearOfEra k := by
    unfold Calendar.marchYear
    rw [hk, Int.toNat_natCast]
  have hstart := Calendar.yearStart_era ((day + 719468) / 146097) (Calendar.yearOfEra k) (by omega)
  have hdoy : day + 719468 - Calendar.yearStart (Calendar.marchYear (day + 719468)) =
      (k : Int) - (365 * Calendar.yearOfEra k + Calendar.yearOfEra k / 4 - Calendar.yearOfEra k / 100 : Int) := by
    rw [hmarch, hstart]
    unfold Calendar.eraDays
    omega
  unfold civilOfDay Calendar.ofDay Calendar.dateOf Calendar.epochOffset Calendar.marchMonth
  simp only [hk, hyear, hdoy]

section Parsed

variable {f : Crontab.Fields} {s : CronSchedule}

/-- No loop of the fields overflows. -/
def FieldsFit (f : Crontab.Fields) : Prop := ∀ e ∈ specFields f, ∀ item ∈ e.2.splitOn ',', LoopFits e.1 item

/-- Sunday is 0 in the schedule and 0 or 7 in the field. -/
theorem mem_dow {field : List Char} {p : ParsedField} (h : parseField field dowField = .ok p) {v : Int} (hv : 0 ≤ v)
    (hv6 : v ≤ 6) :
    v ∈ valueSet (p.values.map fun v => if v = 7 then 0 else v) ↔ Crontab.OnWeekday Reaches field v.toNat := by
  rw [mem_valueSet, List.mem_map]
  unfold Crontab.OnWeekday
  have h7 := mem_parseField dow_spec h (v := 7) (by omega)
  constructor
  · rintro ⟨w, hw, he⟩
    by_cases hw7 : w = 7
    · rw [if_pos hw7] at he
      subst hw7
      exact .inr ⟨by omega, h7.mp hw⟩
    · rw [if_neg hw7] at he
      subst he
      exact .inl ((mem_parseField dow_spec h hv).mp hw)
  · rintro (hd | ⟨hzero, hd⟩)
    · exact ⟨v, (mem_parseField dow_spec h hv).mpr hd, by rw [if_neg (by omega)]⟩
    · exact ⟨7, h7.mpr hd, by rw [if_pos rfl]; omega⟩

/-- An accepted schedule matches what its loops reach. -/
theorem ParsedAs.matches_iff (h : ParsedAs f s) {ms : Int} :
    cronMatchesMinute s ms = true ↔ InCalendar ms ∧ f.MatchAt Reaches ms := by
  obtain ⟨⟨p₁, h₁, hs₁⟩, ⟨p₂, h₂, hs₂⟩, ⟨p₃, h₃, hs₃, hr₃⟩, ⟨p₄, h₄, hs₄⟩, ⟨p₅, h₅, hs₅, hr₅⟩⟩ := h
  obtain ⟨hm1, _, hd1, _⟩ := Calendar.ofDay_valid (dayOf ms)
  have hrule : DayRule s ((Calendar.ofDay (dayOf ms)).day ∈ s.dom) ((dayOf ms + 4) % 7 ∈ s.dow) ↔
      Crontab.OnDay Reaches f (Calendar.ofDay (dayOf ms)).day.toNat ((dayOf ms + 4) % 7).toNat := by
    have hdom := mem_parseField dom_spec h₃ (v := (Calendar.ofDay (dayOf ms)).day) (by omega)
    have hdow := mem_dow h₅ (v := (dayOf ms + 4) % 7) (by omega) (by omega)
    have hr3 := (parseField_values dom_spec h₃).1
    have hr5 := (parseField_values dow_spec h₅).1
    unfold DayRule Crontab.OnDay
    rw [hs₃, hs₅, hr₃, hr₅, hdom, hdow]
    by_cases hboth : f.dayOfMonth ≠ ['*'] ∧ f.dayOfWeek ≠ ['*']
    · rw [if_pos ⟨hr3.mpr hboth.1, hr5.mpr hboth.2⟩, if_pos hboth]
    · rw [if_neg fun h => hboth ⟨hr3.mp h.1, hr5.mp h.2⟩, if_neg hboth]
  rw [cronMatchesMinute_iff, civilOfDay_eq, hs₁, hs₂, hs₄, mem_parseField minute_spec h₁ (by unfold minuteMs; omega),
    mem_parseField hour_spec h₂ (by unfold minuteMs; omega), mem_parseField month_spec h₄ (by omega), hrule]
  unfold Crontab.Fields.MatchAt Crontab.Fields.MatchBy
  exact Iff.rfl

theorem ParsedAs.parses (h : ParsedAs f s) : ∀ e ∈ specFields f, ∃ p, parseField e.2 e.1 = .ok p := by
  obtain ⟨⟨p₁, h₁, _⟩, ⟨p₂, h₂, _⟩, ⟨p₃, h₃, _⟩, ⟨p₄, h₄, _⟩, ⟨p₅, h₅, _⟩⟩ := h
  simp only [specFields, List.forall_mem_cons]
  exact ⟨⟨p₁, h₁⟩, ⟨p₂, h₂⟩, ⟨p₃, h₃⟩, ⟨p₄, h₄⟩, ⟨p₅, h₅⟩, fun e he => absurd he List.not_mem_nil⟩

theorem ParsedAs.reaches_iff (h : ParsedAs f s) (hfits : FieldsFit f) :
    ∀ e ∈ f.all, ∀ v, Reaches e.1 e.2 v ↔ Crontab.Denotes e.1 e.2 v := by
  have hparse := h.parses
  simp only [Crontab.Fields.all, FieldsFit, specFields, List.forall_mem_cons] at hparse hfits ⊢
  obtain ⟨⟨p₁, h₁⟩, ⟨p₂, h₂⟩, ⟨p₃, h₃⟩, ⟨p₄, h₄⟩, ⟨p₅, h₅⟩, _⟩ := hparse
  obtain ⟨f₁, f₂, f₃, f₄, f₅, _⟩ := hfits
  exact ⟨reaches_of_fits minute_spec h₁ f₁, reaches_of_fits hour_spec h₂ f₂, reaches_of_fits dom_spec h₃ f₃,
    reaches_of_fits month_spec h₄ f₄, reaches_of_fits dow_spec h₅ f₅, fun e he => absurd he List.not_mem_nil⟩

/-- Each of the schedule's sets within its field's range. -/
structure ValuesInRange (s : CronSchedule) : Prop where
  minutes : ∀ v ∈ s.minutes, 0 ≤ v ∧ v ≤ 59
  hours : ∀ v ∈ s.hours, 0 ≤ v ∧ v ≤ 23
  dom : ∀ v ∈ s.dom, 1 ≤ v ∧ v ≤ 31
  months : ∀ v ∈ s.months, 1 ≤ v ∧ v ≤ 12
  dow : ∀ v ∈ s.dow, 0 ≤ v ∧ v ≤ 6

theorem values_range {spec : FieldSpec} {F : Crontab.Field} {field : List Char} {p : ParsedField} (hF : SpecOf spec F)
    (h : parseField field spec = .ok p) (hfits : ∀ item ∈ field.splitOn ',', LoopFits spec item) :
    ∀ v ∈ p.values, spec.min ≤ v ∧ v ≤ spec.max := by
  intro v hv
  obtain ⟨w, rfl, hw⟩ := (parseField_denotes hF h hfits v).mp hv
  have := hw.range hF.le
  rw [hF.min, hF.max]
  omega

theorem ParsedAs.inRange (h : ParsedAs f s) (hfits : FieldsFit f) : ValuesInRange s := by
  obtain ⟨⟨p₁, h₁, hs₁⟩, ⟨p₂, h₂, hs₂⟩, ⟨p₃, h₃, hs₃, _⟩, ⟨p₄, h₄, hs₄⟩, ⟨p₅, h₅, hs₅, _⟩⟩ := h
  have hmem : ∀ {spec field}, (spec, field) ∈ specFields f → ∀ item ∈ field.splitOn ',', LoopFits spec item :=
    fun he => hfits _ he
  refine ⟨?_, ?_, ?_, ?_, ?_⟩
  · rw [hs₁]
    exact values_range minute_spec h₁ (hmem (by simp [specFields]))
  · rw [hs₂]
    exact values_range hour_spec h₂ (hmem (by simp [specFields]))
  · rw [hs₃]
    exact values_range dom_spec h₃ (hmem (by simp [specFields]))
  · rw [hs₄]
    exact values_range month_spec h₄ (hmem (by simp [specFields]))
  · intro v hv
    rw [hs₅, mem_valueSet, List.mem_map] at hv
    obtain ⟨w, hw, rfl⟩ := hv
    have hr : 0 ≤ w ∧ w ≤ 7 := values_range dow_spec h₅ (hmem (by simp [specFields])) w hw
    split <;> omega

end Parsed

/-! ## The claim's property and its condition -/

/-- The expression's loops end without an overflow, and an accepted one has its values in
    range and matches what the language says, at the calendar's minutes and at no others. -/
structure CronExact (expr : String) : Prop where
  ends : ∀ e ∈ reached expr, ∀ l, loopOf e.2 e.1 = some l → ∃ n, n < 128 ∧ l.2.1 < (pass l.2.2)^[n] l.1
  noOverflow : ∀ e ∈ reached expr, ∀ l, loopOf e.2 e.1 = some l →
    ∀ v ∈ expandSteps 128 l.1 l.2.1 l.2.2, v + l.2.2 ≤ i64Max
  inRange : ∀ s, parseCronExpression expr = .ok s → ValuesInRange s
  matched : ∀ s, parseCronExpression expr = .ok s → ∃ f, fieldsOf expr = some f ∧
    ∀ ms, cronMatchesMinute s ms = true ↔ InCalendar ms ∧ f.MatchAt Crontab.Denotes ms

/-- Every loop that is run starts at most at the largest `i64` less its step. -/
def StepsFit (expr : String) : Prop := ∀ e ∈ reached expr, LoopFits e.1 e.2

theorem reached_spec {expr : String} {e : FieldSpec × List Char} (h : e ∈ reached expr) : ∃ F, SpecOf e.1 F := by
  unfold reached at h
  cases hf : fieldsOf expr with
  | none =>
    rw [hf] at h
    cases h
  | some f =>
    rw [hf] at h
    obtain ⟨field, hmem, _⟩ := mem_reachedIn h
    exact specFields_spec f (e.1, field) hmem

/-- The loop of an item that is run, in the language's numbers. -/
theorem reached_loop {expr : String} {e : FieldSpec × List Char} (he : e ∈ reached expr) {l : Int × Int × Int}
    (hl : loopOf e.2 e.1 = some l) : ∃ lo hi step : Nat, hi ≤ 59 ∧ lo ≤ hi ∧ 0 < step ∧ (step : Int) ≤ i64Max ∧
      l = ((lo : Int), (hi : Int), (step : Int)) := by
  obtain ⟨F, hF⟩ := reached_spec he
  obtain ⟨lo, hi, step, hI, hstep, rfl⟩ := (loopOf_eq_some hF).mp hl
  obtain ⟨_, hle, hhi, hs⟩ := hI.le hF.le
  exact ⟨lo, hi, step, Nat.le_trans hhi hF.small, hle, hs, hstep, rfl⟩

theorem reached_ends {expr : String} {e : FieldSpec × List Char} (he : e ∈ reached expr) {l : Int × Int × Int}
    (hl : loopOf e.2 e.1 = some l) : ∃ n, n < 128 ∧ l.2.1 < (pass l.2.2)^[n] l.1 := by
  obtain ⟨lo, hi, step, hhi, hle, hs, hstep, rfl⟩ := reached_loop he hl
  exact loop_ends hhi hle hs hstep

theorem noOverflow_iff {expr : String} :
    (∀ e ∈ reached expr, ∀ l, loopOf e.2 e.1 = some l → ∀ v ∈ expandSteps 128 l.1 l.2.1 l.2.2, v + l.2.2 ≤ i64Max) ↔
      StepsFit expr := by
  have hone : ∀ e ∈ reached expr, ∀ l, loopOf e.2 e.1 = some l →
      ((∀ v ∈ expandSteps 128 l.1 l.2.1 l.2.2, v + l.2.2 ≤ i64Max) ↔ l.1 + l.2.2 ≤ i64Max) := by
    intro e he l hl
    obtain ⟨lo, hi, step, hhi, hle, hs, _, rfl⟩ := reached_loop he hl
    exact no_overflow_iff hhi hle hs
  exact ⟨fun h e he l hl => (hone e he l hl).mp (h e he l hl), fun h e he l hl => (hone e he l hl).mpr (h e he l hl)⟩

theorem star_loops {spec : FieldSpec} {F : Crontab.Field} (hF : SpecOf spec F) :
    ∀ item ∈ (['*'] : List Char).splitOn ',', ∃ l, loopOf item spec = some l := by
  intro item hitem
  rw [List.splitOn_eq_singleton (by decide), List.mem_singleton] at hitem
  rw [hitem]
  exact ⟨_, loopOf_star hF⟩

/-- The star's loop has the step one. -/
theorem star_fits {spec : FieldSpec} {F : Crontab.Field} (hF : SpecOf spec F) : LoopFits spec ['*'] := by
  intro l hl
  rw [loopOf_star hF] at hl
  cases hl
  have := hF.small
  have := hF.le
  unfold i64Max
  simp only
  omega

/-- Of an accepted expression every item's loop is run, or it is a lone star's. -/
theorem fieldsFit_of_steps {expr : String} {f : Crontab.Fields} {s : CronSchedule} (hf : fieldsOf expr = some f)
    (hp : ParsedAs f s) (h : StepsFit expr) : FieldsFit f := by
  intro e he item hitem
  by_cases hstar : e.2 = ['*']
  · obtain ⟨F, hF⟩ := specFields_spec f e he
    rw [hstar, List.splitOn_eq_singleton (by decide), List.mem_singleton] at hitem
    rw [hitem]
    exact star_fits hF
  · have hmem := reachedIn_all (specFields_spec f) hp.parses he hstar hitem
    refine h (e.1, item) ?_
    unfold reached
    rw [hf]
    exact hmem

/-- The parser does what the language says exactly when no loop's first addition overflows. -/
theorem cron_expansion_exact_iff (expr : String) : CronExact expr ↔ StepsFit expr := by
  constructor
  · intro h
    exact noOverflow_iff.mp h.noOverflow
  · intro h
    refine ⟨fun e he l hl => reached_ends he hl, noOverflow_iff.mpr h, fun s hs => ?_, fun s hs => ?_⟩
    · obtain ⟨f, hf, hp⟩ := parseCronExpression_ok hs
      exact hp.inRange (fieldsFit_of_steps hf hp h)
    · obtain ⟨f, hf, hp⟩ := parseCronExpression_ok hs
      refine ⟨f, hf, fun ms => ?_⟩
      rw [hp.matches_iff]
      exact and_congr_right fun _ => Crontab.Fields.matchAt_congr (hp.reaches_iff (fieldsFit_of_steps hf hp h)) ms

/-! ## A step that wraps -/

def wideStep : String := "2/9223372036854775807 * * * *"

def wideFields : Crontab.Fields := ⟨"2/9223372036854775807".toList, ['*'], ['*'], ['*'], ['*']⟩

theorem wideStep_fields : fieldsOf wideStep = some wideFields := rfl

theorem wideStep_loop : loopOf "2/9223372036854775807".toList minuteField = some (2, 59, 9223372036854775807) := by
  rfl

theorem wideStep_split : "2/9223372036854775807".toList.splitOn ',' = ["2/9223372036854775807".toList] :=
  List.splitOn_eq_singleton (by decide)

theorem wideStep_reached : (minuteField, "2/9223372036854775807".toList) ∈ reached wideStep := by
  unfold reached
  rw [wideStep_fields, Option.map_some, Option.getD_some]
  unfold specFields wideFields reachedIn
  refine List.mem_append_left _ ?_
  have hsome : (loopOf "2/9223372036854775807".toList minuteField).isSome = true := by rw [wideStep_loop]; rfl
  rw [if_neg (by decide), wideStep_split, List.takeWhile_cons, if_pos hsome]
  exact List.mem_cons_self ..

/-- The minutes are 2, one below zero and 0. -/
theorem wideStep_minutes {p : ParsedField} (h : parseField "2/9223372036854775807".toList minuteField = .ok p) (v : Int) :
    v ∈ p.values ↔ v ∈ [(2 : Int), -9223372036854775807, 0] := by
  have hrun : expandSteps 128 2 59 9223372036854775807 = [2, -9223372036854775807, 0] := by decide +kernel
  rw [(parseField_values minute_spec h).2, wideStep_split]
  simp only [List.mem_singleton, exists_eq_left, wideStep_loop, Option.some.injEq, exists_eq_left', hrun]

theorem wideStep_loops :
    ∀ item ∈ "2/9223372036854775807".toList.splitOn ',', ∃ l, loopOf item minuteField = some l := by
  intro item hitem
  rw [wideStep_split, List.mem_singleton] at hitem
  rw [hitem]
  exact ⟨_, wideStep_loop⟩

theorem wideStep_parses {p : ParsedField} (h : parseField "2/9223372036854775807".toList minuteField = .ok p) :
    ∃ s, parseCronExpression wideStep = .ok s ∧ s.minutes = p.values := by
  have h₁ : parseField wideFields.minute minuteField = .ok p := h
  obtain ⟨p₂, h₂⟩ : ∃ p, parseField wideFields.hour hourField = .ok p := (parseField_ok_iff hour_spec).mpr (star_loops hour_spec)
  obtain ⟨p₃, h₃⟩ : ∃ p, parseField wideFields.dayOfMonth domField = .ok p :=
    (parseField_ok_iff dom_spec).mpr (star_loops dom_spec)
  obtain ⟨p₄, h₄⟩ : ∃ p, parseField wideFields.month monthField = .ok p :=
    (parseField_ok_iff month_spec).mpr (star_loops month_spec)
  obtain ⟨p₅, h₅⟩ : ∃ p, parseField wideFields.dayOfWeek dowField = .ok p :=
    (parseField_ok_iff dow_spec).mpr (star_loops dow_spec)
  rw [parseCronExpression_of_fields wideStep_fields]
  simp only [h₁, h₂, h₃, h₄, h₅, bind, Except.bind]
  exact ⟨_, rfl, rfl⟩

/-- The minute field is accepted with a minute below zero and with the minute 0, which it
    does not stand for. -/
theorem wide_step_fires_at_zero :
    ¬ CronExact wideStep ∧ ∃ s, parseCronExpression wideStep = .ok s ∧ -9223372036854775807 ∈ s.minutes ∧ 0 ∈ s.minutes ∧
      ¬ Crontab.Denotes Crontab.minute "2/9223372036854775807".toList 0 := by
  constructor
  · intro h
    have := noOverflow_iff.mp h.noOverflow _ wideStep_reached _ wideStep_loop
    exact absurd this (by decide)
  · obtain ⟨p, hp⟩ := (parseField_ok_iff minute_spec).mpr wideStep_loops
    obtain ⟨s, hs, hmin⟩ := wideStep_parses hp
    refine ⟨s, hs, ?_, ?_, ?_⟩
    · rw [hmin, wideStep_minutes hp]
      decide
    · rw [hmin, wideStep_minutes hp]
      decide
    · rintro ⟨text, htext, lo, hi, step, hI, j, hv, _⟩
      rw [wideStep_split, List.mem_singleton] at htext
      subst htext
      obtain ⟨lo', hi', step', hI', _, hl⟩ := (loopOf_eq_some minute_spec).mp wideStep_loop
      obtain ⟨rfl, rfl, rfl⟩ := hI.unique hI'
      have hlo : (2 : Int) = lo := congrArg (·.1) hl
      have := Nat.le_add_right lo (j * step)
      omega

end LaunchPad.Agent
