/-
  LaunchPad.Lib.Lines — a text as its lines, each ended by LF or by CR LF, and put together
  again with LF.

  Proved:
  - `splitLines_append`: where the second text does not start a line end, the last line of
    the first runs into the first of the second.
  - `joinLines_splitLines`: split and joined, a text has LF for each CR LF.
-/
import Mathlib.Data.List.Infix

namespace LaunchPad.Lib

/-! ## Splitting -/

def consHead (c : Char) : List (List Char) → List (List Char)
  | [] => [[c]]
  | l :: ls => (c :: l) :: ls

/-- `split(/\r?\n/)`. -/
def splitLines : List Char → List (List Char)
  | [] => [[]]
  | c :: cs =>
    if c = '\n' then [] :: splitLines cs
    else if c = '\r' ∧ cs.head? = some '\n' then splitLines cs
    else consHead c (splitLines cs)

def joinLines (ls : List (List Char)) : List Char := ['\n'].intercalate ls

/-- Two lists of lines, the last of the first and the first of the second as one line. -/
def glue : List (List Char) → List (List Char) → List (List Char)
  | [], ms => ms
  | [l], m :: ms => (l ++ m) :: ms
  | l :: ls, ms => l :: glue ls ms

variable {c : Char} {xs ys : List Char} {l : List Char} {ls ms : List (List Char)}

theorem splitLines_ne_nil (xs : List Char) : splitLines xs ≠ [] := by
  induction xs with
  | nil => simp [splitLines]
  | cons c cs ih =>
    unfold splitLines
    split
    · simp
    · split
      · exact ih
      · cases h : splitLines cs <;> simp [consHead]

@[simp] theorem splitLines_lf (xs : List Char) : splitLines ('\n' :: xs) = [] :: splitLines xs := by
  rw [splitLines, if_pos rfl]

@[simp] theorem splitLines_crlf (xs : List Char) : splitLines ('\r' :: '\n' :: xs) = [] :: splitLines xs := by
  rw [splitLines, if_neg (by decide), if_pos ⟨rfl, rfl⟩, splitLines_lf]

/-- A character that is no part of a line end. -/
theorem splitLines_plain (hn : c ≠ '\n') (hr : c ≠ '\r') (xs : List Char) : splitLines (c :: xs) = consHead c (splitLines xs) := by
  rw [splitLines, if_neg hn, if_neg fun h => hr h.1]

theorem glue_consHead (hls : ls ≠ []) : glue (consHead c ls) ms = consHead c (glue ls ms) := by
  match ls, ms with
  | [], _ => exact absurd rfl hls
  | [l], [] => rfl
  | [l], m :: ms => rfl
  | l :: l' :: ls, ms => rfl

theorem glue_cons (hls : ls ≠ []) : glue (l :: ls) ms = l :: glue ls ms := by
  match ls with
  | [] => exact absurd rfl hls
  | l' :: ls => rfl

theorem splitLines_append (hc : c ≠ '\n') (xs ys : List Char) :
    splitLines (xs ++ c :: ys) = glue (splitLines xs) (splitLines (c :: ys)) := by
  induction xs with
  | nil =>
    obtain ⟨m, ms, hm⟩ := List.exists_cons_of_ne_nil (splitLines_ne_nil (c :: ys))
    rw [List.nil_append, hm]
    rfl
  | cons x xs ih =>
    rw [List.cons_append, splitLines, splitLines]
    by_cases hx : x = '\n'
    · rw [if_pos hx, if_pos hx, ih, glue_cons (splitLines_ne_nil xs)]
    · rw [if_neg hx, if_neg hx]
      have hhead : (xs ++ c :: ys).head? = some '\n' ↔ xs.head? = some '\n' := by
        cases xs with
        | nil => simp [hc]
        | cons y xs => simp
      simp only [hhead]
      by_cases hcr : x = '\r' ∧ xs.head? = some '\n'
      · rw [if_pos hcr, if_pos hcr, ih]
      · rw [if_neg hcr, if_neg hcr, ih, glue_consHead (splitLines_ne_nil xs)]

theorem mem_consHead (h : l ∈ consHead c ls) : l = [c] ∨ l ∈ ls ∨ ∃ l' ∈ ls, l = c :: l' := by
  cases ls with
  | nil => exact .inl (List.mem_singleton.mp h)
  | cons l' ls =>
    rcases List.mem_cons.mp h with h | h
    · exact .inr (.inr ⟨l', List.mem_cons_self .., h⟩)
    · exact .inr (.inl (List.mem_cons_of_mem _ h))

/-- The characters of a line are the text's. -/
theorem mem_of_mem_splitLines (hl : l ∈ splitLines xs) (hc : c ∈ l) : c ∈ xs := by
  induction xs generalizing l with
  | nil =>
    obtain rfl := List.mem_singleton.mp hl
    exact hc
  | cons x xs ih =>
    unfold splitLines at hl
    split at hl
    · rcases List.mem_cons.mp hl with rfl | hl
      · cases hc
      · exact List.mem_cons_of_mem _ (ih hl hc)
    · split at hl
      · exact List.mem_cons_of_mem _ (ih hl hc)
      · rcases mem_consHead hl with rfl | hin | ⟨l', hin, rfl⟩
        · exact List.mem_cons.mpr (.inl (List.mem_singleton.mp hc))
        · exact List.mem_cons_of_mem _ (ih hin hc)
        · rcases List.mem_cons.mp hc with rfl | hc
          · exact List.mem_cons_self ..
          · exact List.mem_cons_of_mem _ (ih hin hc)

/-- Text without a line end before another goes on its first line. -/
theorem splitLines_prepend {l : List Char} {ls : List (List Char)} (hxs : ∀ c ∈ xs, c ≠ '\n' ∧ c ≠ '\r')
    (h : splitLines ys = l :: ls) : splitLines (xs ++ ys) = (xs ++ l) :: ls := by
  induction xs with
  | nil => exact h
  | cons x xs ih =>
    obtain ⟨hn, hr⟩ := hxs x (List.mem_cons_self ..)
    rw [List.cons_append, splitLines_plain hn hr, ih fun c hc => hxs c (List.mem_cons_of_mem _ hc)]
    rfl

/-- A line and its end; a CR before an LF goes with it. -/
theorem splitLines_line (hxs : '\n' ∉ xs) (ys : List Char) :
    splitLines (xs ++ '\n' :: ys) = (if xs.getLast? = some '\r' then xs.dropLast else xs) :: splitLines ys := by
  induction xs with
  | nil => simp
  | cons x xs ih =>
    have hx : x ≠ '\n' := fun e => hxs (e ▸ List.mem_cons_self ..)
    have ih := ih fun h => hxs (List.mem_cons_of_mem _ h)
    rw [List.cons_append, splitLines, if_neg hx, ih]
    cases xs with
    | nil =>
      by_cases hr : x = '\r'
      · simp [hr]
      · simp [hr, consHead]
    | cons y xs =>
      have hy : y ≠ '\n' := fun e => hxs (e ▸ List.mem_cons_of_mem _ (List.mem_cons_self ..))
      rw [if_neg (by simp [hy]), List.getLast?_cons_cons]
      by_cases hlast : (y :: xs).getLast? = some '\r'
      · rw [if_pos hlast, if_pos hlast]
        rfl
      · rw [if_neg hlast, if_neg hlast]
        rfl

/-- A text without LF is one line. -/
theorem splitLines_single (hxs : '\n' ∉ xs) : splitLines xs = [xs] := by
  induction xs with
  | nil => rfl
  | cons x xs ih =>
    have hx : x ≠ '\n' := fun e => hxs (e ▸ List.mem_cons_self ..)
    have hhead : xs.head? ≠ some '\n' := fun h => hxs (List.mem_cons_of_mem _ (List.mem_of_head? h))
    rw [splitLines, if_neg hx, if_neg fun h => hhead h.2, ih fun h => hxs (List.mem_cons_of_mem _ h)]
    rfl

/-! ## Joining -/

/-- A text with LF for each CR LF. -/
def withLf : List Char → List Char
  | [] => []
  | c :: cs => if c = '\r' ∧ cs.head? = some '\n' then withLf cs else c :: withLf cs

theorem joinLines_consHead (hls : ls ≠ []) : joinLines (consHead c ls) = c :: joinLines ls := by
  match ls with
  | [] => exact absurd rfl hls
  | [l] => rfl
  | l :: l' :: ls => rfl

theorem joinLines_nil_cons (hls : ls ≠ []) : joinLines ([] :: ls) = '\n' :: joinLines ls := by
  match ls with
  | [] => exact absurd rfl hls
  | l :: ls => rfl

theorem joinLines_splitLines (xs : List Char) : joinLines (splitLines xs) = withLf xs := by
  induction xs with
  | nil => rfl
  | cons c cs ih =>
    rw [splitLines, withLf]
    by_cases hn : c = '\n'
    · have hr : ¬ (c = '\r' ∧ cs.head? = some '\n') := by simp [hn]
      rw [if_pos hn, if_neg hr, joinLines_nil_cons (splitLines_ne_nil cs), ih, hn]
    · rw [if_neg hn]
      by_cases hr : c = '\r' ∧ cs.head? = some '\n'
      · rw [if_pos hr, if_pos hr, ih]
      · rw [if_neg hr, if_neg hr, joinLines_consHead (splitLines_ne_nil cs), ih]

/-- Without a CR LF nothing changes. -/
theorem withLf_eq_self (h : ¬ ['\r', '\n'] <:+: xs) : withLf xs = xs := by
  induction xs with
  | nil => rfl
  | cons c cs ih =>
    have hcs : ¬ ['\r', '\n'] <:+: cs := fun hin => h (hin.trans (List.infix_cons (List.infix_refl cs)))
    have hnot : ¬ (c = '\r' ∧ cs.head? = some '\n') := by
      intro ⟨hc, hhead⟩
      obtain ⟨ds, rfl⟩ := List.head?_eq_some_iff.mp hhead
      subst hc
      exact h ⟨[], ds, rfl⟩
    rw [withLf, if_neg hnot, ih hcs]

end LaunchPad.Lib
