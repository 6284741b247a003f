/-
  LaunchPad.Lib.Glob — patterns in which `*` stands for any text, separators included, and
  `?` for any one character.

  Proved:
  - `globMatches_literal`: a pattern without either matches itself only.
  - `globMatches_around`: with one `*` between two such texts, whatever starts with the
    first and ends with the second.
-/
import Mathlib.Data.List.Infix

namespace LaunchPad.Lib

def globMatches : List Char → List Char → Bool
  | [], s => s.isEmpty
  | c :: p, s =>
    if c = '*' then s.tails.any (globMatches p)
    else match s with
      | [] => false
      | d :: s => (c = '?' || c = d) && globMatches p s

/-- Every character of the pattern stands for itself. -/
def Literal (p : List Char) : Prop := ∀ c ∈ p, c ≠ '*' ∧ c ≠ '?'

instance (p : List Char) : Decidable (Literal p) := List.decidableBAll (fun c => c ≠ '*' ∧ c ≠ '?') p

theorem Literal.append {p q : List Char} (hp : Literal p) (hq : Literal q) : Literal (p ++ q) := by
  intro c hc
  rcases List.mem_append.mp hc with hc | hc
  · exact hp c hc
  · exact hq c hc

@[simp] theorem globMatches_nil (s : List Char) : globMatches [] s = true ↔ s = [] := by
  simp [globMatches]

theorem globMatches_star {p s : List Char} :
    globMatches ('*' :: p) s = true ↔ ∃ m r, s = m ++ r ∧ globMatches p r = true := by
  simp only [globMatches, if_true, List.any_eq_true, List.mem_tails]
  constructor
  · rintro ⟨r, ⟨m, rfl⟩, hr⟩
    exact ⟨m, r, rfl, hr⟩
  · rintro ⟨m, r, rfl, hr⟩
    exact ⟨r, ⟨m, rfl⟩, hr⟩

theorem globMatches_cons {c : Char} {p s : List Char} (h : c ≠ '*' ∧ c ≠ '?') :
    globMatches (c :: p) s = true ↔ ∃ r, s = c :: r ∧ globMatches p r = true := by
  cases s with
  | nil => simp [globMatches, h.1]
  | cons d s =>
    simp only [globMatches, if_neg h.1, Bool.and_eq_true, Bool.or_eq_true, decide_eq_true_eq, or_iff_right h.2]
    constructor
    · rintro ⟨rfl, hs⟩
      exact ⟨s, rfl, hs⟩
    · rintro ⟨r, hr, hs⟩
      obtain ⟨rfl, rfl⟩ := List.cons.inj hr
      exact ⟨rfl, hs⟩

/-- A literal text before a pattern is a literal text before what it matches. -/
theorem globMatches_append {p q s : List Char} (hp : Literal p) :
    globMatches (p ++ q) s = true ↔ ∃ r, s = p ++ r ∧ globMatches q r = true := by
  induction p generalizing s with
  | nil => simp
  | cons c p ih =>
    rw [List.cons_append, globMatches_cons (hp c (List.mem_cons_self ..))]
    constructor
    · rintro ⟨r, rfl, hr⟩
      obtain ⟨r', rfl, hr'⟩ := (ih fun d hd => hp d (List.mem_cons_of_mem _ hd)).mp hr
      exact ⟨r', rfl, hr'⟩
    · rintro ⟨r, rfl, hr⟩
      exact ⟨p ++ r, rfl, (ih fun d hd => hp d (List.mem_cons_of_mem _ hd)).mpr ⟨r, rfl, hr⟩⟩

theorem globMatches_literal {p s : List Char} (hp : Literal p) : globMatches p s = true ↔ s = p := by
  have h := globMatches_append (q := []) (s := s) hp
  simpa using h

theorem globMatches_around {p q s : List Char} (hp : Literal p) (hq : Literal q) :
    globMatches (p ++ '*' :: q) s = true ↔ ∃ m, s = p ++ (m ++ q) := by
  rw [globMatches_append hp]
  constructor
  · rintro ⟨r, rfl, hr⟩
    obtain ⟨m, r', rfl, hr'⟩ := globMatches_star.mp hr
    exact ⟨m, by rw [(globMatches_literal hq).mp hr']⟩
  · rintro ⟨m, rfl⟩
    exact ⟨m ++ q, rfl, globMatches_star.mpr ⟨m, q, rfl, (globMatches_literal hq).mpr rfl⟩⟩

end LaunchPad.Lib
