/-
  LaunchPad.Lib.Delimited — encodings that mark their own end: whatever text follows, a
  reader knows where the first value stops. Records and lists built of such encodings are
  such encodings again.

  Proved:
  - `Delimited.of_reader`: an encoding with a reader is one.
  - `Delimited.pair`, `Delimited.comap`, `Delimited.closed`: one after another, of a value's
    part, and between two fixed texts.
  - `Delimited.terminated`, `Delimited.bracketed`: a run of items up to a closing mark, and a
    bracketed list with separators.
-/
import Mathlib.Data.List.Basic

namespace LaunchPad.Lib

variable {τ α β : Type}

/-- Two encodings, each followed by anything, agree only when their values and what follows
    them do. -/
def Delimited (f : α → List τ) : Prop := ∀ a b x y, f a ++ x = f b ++ y → a = b ∧ x = y

namespace Delimited

/-- An encoding that a reader of its front undoes. -/
theorem of_reader {f : α → List τ} {read : List τ → Option (α × List τ)} (h : ∀ a x, read (f a ++ x) = some (a, x)) :
    Delimited f := by
  intro a b x y heq
  have hread := h a x
  rw [heq, h b y, Option.some.injEq, Prod.mk.injEq] at hread
  exact ⟨hread.1.symm, hread.2.symm⟩

theorem pair {f : α → List τ} {g : β → List τ} (hf : Delimited f) (hg : Delimited g) :
    Delimited fun p : α × β => f p.1 ++ g p.2 := by
  intro p q x y h
  rw [List.append_assoc, List.append_assoc] at h
  obtain ⟨hfst, hrest⟩ := hf _ _ _ _ h
  obtain ⟨hsnd, hxy⟩ := hg _ _ _ _ hrest
  exact ⟨Prod.ext hfst hsnd, hxy⟩

theorem comap {f : β → List τ} (hf : Delimited f) {g : α → β} (hg : ∀ a b, g a = g b → a = b) :
    Delimited fun a => f (g a) := by
  intro a b x y h
  obtain ⟨hab, hxy⟩ := hf _ _ _ _ h
  exact ⟨hg a b hab, hxy⟩

theorem closed {f : α → List τ} (hf : Delimited f) (before after : List τ) :
    Delimited fun a => before ++ f a ++ after := by
  intro a b x y h
  simp only [List.append_assoc] at h
  obtain ⟨hab, hrest⟩ := hf _ _ _ _ (List.append_cancel_left h)
  exact ⟨hab, List.append_cancel_left hrest⟩

/-- The encoding of no value starts with the mark. -/
def Avoids (f : α → List τ) (mark : τ) : Prop := ∀ a, ∃ c rest, f a = c :: rest ∧ c ≠ mark

/-- Items up to a mark that none of them starts with. -/
theorem terminated {f : α → List τ} {mark : τ} (hf : Delimited f) (hmark : Avoids f mark) :
    Delimited fun l : List α => l.flatMap f ++ [mark] := by
  intro l
  induction l with
  | nil =>
    rintro (_ | ⟨b, m⟩) x y h
    · exact ⟨rfl, List.append_cancel_left h⟩
    · obtain ⟨c, rest, hb, hne⟩ := hmark b
      simp only [List.flatMap_nil, List.flatMap_cons, hb, List.nil_append, List.cons_append, List.cons.injEq] at h
      exact absurd h.1.symm hne
  | cons a l ih =>
    rintro (_ | ⟨b, m⟩) x y h
    · obtain ⟨c, rest, ha, hne⟩ := hmark a
      simp only [List.flatMap_nil, List.flatMap_cons, ha, List.nil_append, List.cons_append, List.cons.injEq] at h
      exact absurd h.1 hne
    · simp only [List.flatMap_cons, List.append_assoc] at h
      obtain ⟨rfl, hrest⟩ := hf _ _ _ _ h
      rw [← List.append_assoc, ← List.append_assoc] at hrest
      obtain ⟨rfl, hxy⟩ := ih _ _ _ hrest
      exact ⟨rfl, hxy⟩

/-- The items of a list after its first one, each behind a separator. -/
theorem intercalate_cons (sep : List τ) (a : List τ) (l : List (List τ)) :
    sep.intercalate (a :: l) = a ++ l.flatMap fun b => sep ++ b := by
  induction l generalizing a with
  | nil => simp
  | cons b l ih => rw [List.intercalate_cons_cons, ih, List.flatMap_cons, List.append_assoc, List.append_assoc]

/-- A list in brackets: items with separators, up to the closing mark. -/
theorem bracketed {f : α → List τ} {sep mark : τ} (hf : Delimited f) (hmark : Avoids f mark) (hsep : sep ≠ mark)
    (opening : List τ) : Delimited fun l : List α => opening ++ [sep].intercalate (l.map f) ++ [mark] := by
  have htail : Delimited fun l : List α => (l.flatMap fun a => [sep] ++ f a) ++ [mark] := by
    refine terminated ?_ fun a => ⟨sep, f a, rfl, hsep⟩
    intro a b x y h
    simp only [List.append_assoc] at h
    exact hf a b x y (List.append_cancel_left h)
  have hmap : ∀ (a : α) (l : List α),
      [sep].intercalate ((a :: l).map f) ++ [mark] = f a ++ ((l.flatMap fun a => [sep] ++ f a) ++ [mark]) := by
    intro a l
    rw [List.map_cons, intercalate_cons, List.flatMap_map, List.append_assoc]
  have hitems : Delimited fun l : List α => [sep].intercalate (l.map f) ++ [mark] := by
    rintro (_ | ⟨a, l⟩) (_ | ⟨b, m⟩) x y h
    · exact ⟨rfl, List.append_cancel_left h⟩
    · obtain ⟨c, rest, hb, hne⟩ := hmark b
      simp only [hmap, hb, List.map_nil, List.intercalate_nil, List.nil_append, List.cons_append, List.cons.injEq] at h
      exact absurd h.1.symm hne
    · obtain ⟨c, rest, ha, hne⟩ := hmark a
      simp only [hmap, ha, List.map_nil, List.intercalate_nil, List.nil_append, List.cons_append, List.cons.injEq] at h
      exact absurd h.1 hne
    · simp only [hmap] at h
      obtain ⟨hab, hxy⟩ := (hf.pair htail) (a, l) (b, m) x y h
      cases hab
      exact ⟨rfl, hxy⟩
  intro l m x y h
  simp only [List.append_assoc] at h
  have := hitems l m x y
  simp only [List.append_assoc] at this
  exact this (List.append_cancel_left h)

end Delimited

end LaunchPad.Lib
