/-
  LaunchPad.Lib.Split — texts cut at a separator (`List.splitOn`) and put together again
  (`List.intercalate`).

  Proved:
  - `not_mem_of_mem_splitOn`: no piece has the separator.
  - `splitOn_one_iff`, `splitOn_two_iff`: the texts of one piece and of two.
  - `Fronts.of_mem`, `Fronts.append`: how each piece of a text starts, and of one text after another.
  - `splitOnP_congr`, `mem_splitOnP`: cutting depends on which elements separate, and keeps
    all others.
  - `mapM_ok_iff`, `mapM_ok_exists`: what reading every piece, up to the first error, comes to.
  - `mem_intercalate`: a character of pieces put together is the separator's or a piece's.
-/
import Mathlib.Data.List.Basic
import Mathlib.Data.List.Chain

namespace LaunchPad.Lib

variable {α : Type}

theorem mem_intercalate {sep c : α} {l : List (List α)} (h : c ∈ [sep].intercalate l) : c = sep ∨ ∃ t ∈ l, c ∈ t := by
  induction l with
  | nil => cases h
  | cons t l ih =>
    cases l with
    | nil =>
      rw [List.intercalate_singleton] at h
      exact .inr ⟨t, List.mem_cons_self .., h⟩
    | cons t' l =>
      rw [List.intercalate_cons_cons, List.append_assoc, List.mem_append, List.singleton_append, List.mem_cons] at h
      rcases h with h | h | h
      · exact .inr ⟨t, List.mem_cons_self .., h⟩
      · exact .inl h
      · rcases ih h with h | ⟨u, hu, h⟩
        · exact .inl h
        · exact .inr ⟨u, List.mem_cons_of_mem _ hu, h⟩

theorem mem_intercalate_of_mem {sep c : α} {l : List (List α)} {t : List α} (ht : t ∈ l) (hc : c ∈ t) :
    c ∈ [sep].intercalate l := by
  induction l with
  | nil => cases ht
  | cons u l ih =>
    cases l with
    | nil =>
      rw [List.mem_singleton.mp ht] at hc
      rwa [List.intercalate_singleton]
    | cons u' l =>
      rw [List.intercalate_cons_cons, List.append_assoc, List.mem_append]
      rcases List.mem_cons.mp ht with rfl | ht
      · exact .inl hc
      · exact .inr (List.mem_append_right _ (ih ht))

variable [BEq α] [LawfulBEq α]

theorem mem_of_mem_splitOn {sep c : α} {text piece : List α} (h : piece ∈ text.splitOn sep) (hc : c ∈ piece) : c ∈ text := by
  have hmem : c ∈ [sep].intercalate (text.splitOn sep) := mem_intercalate_of_mem h hc
  rwa [List.intercalate_splitOn] at hmem

theorem not_mem_of_mem_splitOn {sep : α} {text piece : List α} (h : piece ∈ text.splitOn sep) : sep ∉ piece := by
  induction text generalizing piece with
  | nil =>
    rw [List.splitOn_nil, List.mem_singleton] at h
    rw [h]
    exact List.not_mem_nil
  | cons c text ih =>
    rw [List.splitOn_cons_eq_if_modifyHead] at h
    split at h
    · rcases List.mem_cons.mp h with rfl | h
      · exact List.not_mem_nil
      · exact ih h
    · rename_i hc
      cases hs : text.splitOn sep with
      | nil => exact absurd hs (List.splitOn_ne_nil sep text)
      | cons first pieces =>
        rw [hs] at h
        rcases List.mem_cons.mp h with rfl | h
        · intro hmem
          rcases List.mem_cons.mp hmem with rfl | hmem
          · exact hc (by simp)
          · exact ih (by rw [hs]; exact List.mem_cons_self ..) hmem
        · exact ih (by rw [hs]; exact List.mem_cons_of_mem _ h)

theorem splitOn_one_iff {sep : α} {text a : List α} : text.splitOn sep = [a] ↔ text = a ∧ sep ∉ a := by
  constructor
  · intro h
    refine ⟨?_, not_mem_of_mem_splitOn (by rw [h]; exact List.mem_singleton_self a)⟩
    have hback : [sep].intercalate (text.splitOn sep) = text := List.intercalate_splitOn sep
    rw [← hback, h, List.intercalate_singleton]
  · rintro ⟨rfl, h⟩
    exact List.splitOn_eq_singleton h

theorem splitOn_two_iff {sep : α} {text a b : List α} :
    text.splitOn sep = [a, b] ↔ text = a ++ sep :: b ∧ sep ∉ a ∧ sep ∉ b := by
  constructor
  · intro h
    have hback : [sep].intercalate (text.splitOn sep) = text := List.intercalate_splitOn sep
    have hpiece : ∀ piece ∈ [a, b], sep ∉ piece := by
      rw [← h]
      exact fun piece hpiece => not_mem_of_mem_splitOn hpiece
    refine ⟨?_, hpiece a (by simp), hpiece b (by simp)⟩
    rw [← hback, h, List.intercalate_cons_cons, List.intercalate_singleton, List.append_assoc, List.singleton_append]
  · rintro ⟨rfl, ha, hb⟩
    rw [List.splitOn_append_cons_self_of_not_mem ha, List.splitOn_eq_singleton hb]

/-! ## How the pieces start -/

/-- Each piece starts with an element of `P`, if it has any. -/
def Fronts (sep : α) (P : α → Prop) (text : List α) : Prop := (sep :: text).IsChain fun a b => a = sep → P b

section Fronts

variable {sep : α} {P : α → Prop} {text first piece : List α} {pieces : List (List α)}

omit [LawfulBEq α] in
theorem head_splitOn (h : text.splitOn sep = first :: pieces) : ∀ c ∈ first.head?, c ∈ text.head? := by
  intro c hc
  cases text with
  | nil =>
    rw [List.splitOn_nil] at h
    rwa [(List.cons.inj h).1]
  | cons a text =>
    rw [List.splitOn_cons_eq_if_modifyHead] at h
    split at h
    · rw [← (List.cons.inj h).1] at hc
      cases hc
    · cases hs : text.splitOn sep with
      | nil => exact absurd hs (List.splitOn_ne_nil sep text)
      | cons first' pieces' =>
        rw [hs] at h
        rwa [← (List.cons.inj h).1] at hc

theorem Fronts.tail (h : text.IsChain fun a b => a = sep → P b) (hs : text.splitOn sep = first :: pieces)
    (hpiece : piece ∈ pieces) : ∀ c ∈ piece.head?, P c := by
  induction text generalizing first pieces with
  | nil =>
    rw [List.splitOn_nil] at hs
    rw [← (List.cons.inj hs).2] at hpiece
    cases hpiece
  | cons a text ih =>
    obtain ⟨hhead, htail⟩ := List.isChain_cons.mp h
    cases hs' : text.splitOn sep with
    | nil => exact absurd hs' (List.splitOn_ne_nil sep text)
    | cons first' pieces' =>
      rw [List.splitOn_cons_eq_if_modifyHead, hs'] at hs
      split at hs
      · rename_i ha
        rw [← (List.cons.inj hs).2] at hpiece
        rcases List.mem_cons.mp hpiece with rfl | hpiece
        · exact fun c hc => hhead c (head_splitOn hs' c hc) (by simpa using ha)
        · exact ih htail hs' hpiece
      · rw [← (List.cons.inj hs).2] at hpiece
        exact ih htail hs' hpiece

theorem Fronts.of_mem (h : Fronts sep P text) (hpiece : piece ∈ text.splitOn sep) : ∀ c ∈ piece.head?, P c := by
  obtain ⟨hhead, htail⟩ := List.isChain_cons.mp h
  cases hs : text.splitOn sep with
  | nil => exact absurd hs (List.splitOn_ne_nil sep text)
  | cons first pieces =>
    rw [hs] at hpiece
    rcases List.mem_cons.mp hpiece with rfl | hpiece
    · exact fun c hc => hhead c (head_splitOn hs c hc) rfl
    · exact Fronts.tail htail hs hpiece

omit [BEq α] [LawfulBEq α] in
theorem Fronts.append {text' : List α} (h : Fronts sep P text) (h' : Fronts sep P text') : Fronts sep P (text ++ text') := by
  obtain ⟨hhead, htail⟩ := List.isChain_cons.mp h'
  exact List.isChain_append.mpr ⟨h, htail, fun _ _ c hc _ => hhead c hc rfl⟩

omit [BEq α] [LawfulBEq α] in
theorem Fronts.all (h : ∀ c ∈ text, P c) : Fronts sep P text := by
  induction text with
  | nil => exact List.isChain_singleton _
  | cons c text ih =>
    obtain ⟨hc, htext⟩ := List.forall_mem_cons.mp h
    obtain ⟨hhead, htail⟩ := List.isChain_cons.mp (ih htext)
    exact List.isChain_cons_cons.mpr ⟨fun _ => hc, List.isChain_cons.mpr ⟨fun d hd _ => hhead d hd rfl, htail⟩⟩

omit [BEq α] [LawfulBEq α] in
/-- A text of one piece. -/
theorem Fronts.free (hhead : ∀ c ∈ text.head?, P c) (hfree : sep ∉ text) : Fronts sep P text := by
  refine List.isChain_cons.mpr ⟨fun c hc _ => hhead c hc, ?_⟩
  clear hhead
  induction text with
  | nil => exact List.isChain_nil
  | cons c text ih =>
    obtain ⟨hc, htext⟩ := not_or.mp (mt List.mem_cons.mpr hfree)
    exact List.isChain_cons.mpr ⟨fun _ _ h => absurd h.symm hc, ih htext⟩

end Fronts

/-! ## At the elements of a kind -/

section Kind

omit [BEq α] [LawfulBEq α]

variable {p q : α → Bool} {l : List α}

theorem splitOnP_congr (h : ∀ a ∈ l, p a = q a) : l.splitOnP p = l.splitOnP q := by
  induction l with
  | nil => rfl
  | cons a l ih =>
    obtain ⟨ha, hl⟩ := List.forall_mem_cons.mp h
    rw [List.splitOnP_cons_eq_if_modifyHead, List.splitOnP_cons_eq_if_modifyHead, ha, ih hl]

/-- What is not a separator is in some piece. -/
theorem mem_splitOnP {a : α} (ha : a ∈ l) (hp : p a = false) : ∃ piece ∈ l.splitOnP p, a ∈ piece := by
  induction l with
  | nil => cases ha
  | cons b l ih =>
    rw [List.splitOnP_cons_eq_if_modifyHead]
    split
    · rename_i hb
      rcases List.mem_cons.mp ha with rfl | ha
      · rw [hp] at hb
        cases hb
      · obtain ⟨piece, hpiece, hmem⟩ := ih ha
        exact ⟨piece, List.mem_cons_of_mem _ hpiece, hmem⟩
    · cases hs : l.splitOnP p with
      | nil => exact absurd hs (List.splitOnP_ne_nil p l)
      | cons first rest =>
        rw [List.modifyHead_cons]
        rcases List.mem_cons.mp ha with rfl | ha
        · exact ⟨_, List.mem_cons_self .., List.mem_cons_self ..⟩
        · obtain ⟨piece, hpiece, hmem⟩ := ih ha
          rw [hs] at hpiece
          rcases List.mem_cons.mp hpiece with rfl | hpiece
          · exact ⟨_, List.mem_cons_self .., List.mem_cons_of_mem _ hmem⟩
          · exact ⟨piece, List.mem_cons_of_mem _ hpiece, hmem⟩

end Kind

/-! ## Reading every piece -/

section Reading

/-- A step and the rest succeed together. -/
theorem bind_eq_ok {α β ε : Type} {x : Except ε α} {f : α → Except ε β} {b : β} :
    (x >>= f) = .ok b ↔ ∃ a, x = .ok a ∧ f a = .ok b := by
  cases x with
  | error e => simp [bind, Except.bind]
  | ok a => simp [bind, Except.bind]

theorem mapM_ok_iff {α β ε : Type} {f : α → Except ε β} {l : List α} {ys : List β} (h : l.mapM f = .ok ys) :
    (∀ x ∈ l, ∃ y ∈ ys, f x = .ok y) ∧ ∀ y ∈ ys, ∃ x ∈ l, f x = .ok y := by
  induction l generalizing ys with
  | nil =>
    cases h
    exact ⟨fun x hx => absurd hx List.not_mem_nil, fun y hy => absurd hy List.not_mem_nil⟩
  | cons x l ih =>
    rw [List.mapM_cons] at h
    cases hx : f x with
    | error e => rw [hx] at h; cases h
    | ok y =>
      cases hl : l.mapM f with
      | error e => rw [hx, hl] at h; cases h
      | ok zs =>
        rw [hx, hl] at h
        cases h
        obtain ⟨h1, h2⟩ := ih hl
        refine ⟨List.forall_mem_cons.mpr ⟨⟨y, List.mem_cons_self .., hx⟩, fun x' hx' => ?_⟩, fun z hz => ?_⟩
        · obtain ⟨z, hz, hfz⟩ := h1 x' hx'
          exact ⟨z, List.mem_cons_of_mem _ hz, hfz⟩
        · rcases List.mem_cons.mp hz with rfl | hz
          · exact ⟨x, List.mem_cons_self .., hx⟩
          · obtain ⟨x', hx', hfx⟩ := h2 z hz
            exact ⟨x', List.mem_cons_of_mem _ hx', hfx⟩

theorem mapM_ok_exists {α β ε : Type} {f : α → Except ε β} {l : List α} (h : ∀ x ∈ l, ∃ y, f x = .ok y) :
    ∃ ys, l.mapM f = .ok ys := by
  induction l with
  | nil => exact ⟨[], rfl⟩
  | cons x l ih =>
    obtain ⟨⟨y, hy⟩, htail⟩ := List.forall_mem_cons.mp h
    obtain ⟨ys, hys⟩ := ih htail
    exact ⟨y :: ys, by rw [List.mapM_cons, hy, hys]; rfl⟩

end Reading

end LaunchPad.Lib
