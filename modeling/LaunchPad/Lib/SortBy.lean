/-
  LaunchPad.Lib.SortBy — lists sorted by a key, with a sort that keeps equal keys in the
  order they had. Where no key occurs twice, the sorted list is the listing of a set.

  Proved:
  - `sort_congr`, `sort_eq_iff`: with distinct keys, two lists sort alike exactly when they
    have the same elements.
  - `sort_of_agree`: a comparison that agrees with the keys on the elements sorts the same.
  - `filter_sort`, `filter_insertionSort`: the elements of one key keep their order.
  - `eq_of_filters`: a sorted list is known by its elements of each key, in order.
  - `find_sort`: a search through the sorted list finds an element of the least key there is.
-/
import Mathlib.Data.List.Nodup
import Mathlib.Data.List.Perm.Basic
import Mathlib.Data.List.Sort
import Mathlib.Order.Lattice

namespace LaunchPad.Lib.SortBy

variable {α κ : Type} [LinearOrder κ] {key : α → κ} {l m : List α}

theorem pairwise_sort (key : α → κ) (l : List α) :
    (l.mergeSort fun x y => decide (key x ≤ key y)).Pairwise fun x y => key x ≤ key y := by
  refine (List.pairwise_mergeSort (fun x y z hxy hyz => ?_) (fun x y => ?_) l).imp fun hxy => by simpa using hxy
  · simpa using le_trans (by simpa using hxy) (by simpa using hyz : key y ≤ key z)
  · simpa using le_total (key x) (key y)

/-- Two listings sort to the same list when no key is listed twice. -/
theorem sort_congr (h : l.Perm m) (hkeys : (l.map key).Nodup) :
    (l.mergeSort fun x y => decide (key x ≤ key y)) = m.mergeSort fun x y => decide (key x ≤ key y) := by
  refine List.Perm.eq_of_pairwise (fun x y hx hy hxy hyx => ?_) (pairwise_sort key l) (pairwise_sort key m)
    ((List.mergeSort_perm _ _).trans (h.trans (List.mergeSort_perm _ _).symm))
  exact List.inj_on_of_nodup_map hkeys ((List.mergeSort_perm _ _).mem_iff.mp hx)
    (h.mem_iff.mpr ((List.mergeSort_perm _ _).mem_iff.mp hy)) (le_antisymm hxy hyx)

/-- The sorted lists are the same exactly when the sets are. -/
theorem sort_eq_iff (hl : (l.map key).Nodup) (hm : (m.map key).Nodup) :
    (l.mergeSort fun x y => decide (key x ≤ key y)) = (m.mergeSort fun x y => decide (key x ≤ key y)) ↔
      ∀ a, a ∈ l ↔ a ∈ m := by
  constructor
  · intro h a
    rw [← (List.mergeSort_perm l fun x y => decide (key x ≤ key y)).mem_iff, h, (List.mergeSort_perm m _).mem_iff]
  · intro h
    exact sort_congr ((List.perm_ext_iff_of_nodup (List.Nodup.of_map _ hl) (List.Nodup.of_map _ hm)).mpr h) hl

/-- Only how the comparison answers on the elements matters. -/
theorem sort_of_agree {le le' : α → α → Bool} (h : ∀ a ∈ l, ∀ b ∈ l, le a b = le' a b) :
    l.mergeSort le = l.mergeSort le' := by
  have hmap := List.map_mergeSort (f := id) (s := le') h
  simpa using hmap

/-! ## Stability -/

theorem pairwise_filter_key (key : α → κ) (l : List α) (k : κ) : (l.filter (key · = k)).Pairwise fun x y => key x ≤ key y := by
  refine List.Pairwise.imp_of_mem (R := fun _ _ => True) (fun ha hb _ => ?_) (List.pairwise_of_forall fun _ _ => trivial)
  rw [of_decide_eq_true (List.mem_filter.mp ha).2, of_decide_eq_true (List.mem_filter.mp hb).2]

/-- A sort that has the elements of one key among its elements, in order, has those only. -/
theorem filter_of_sublist {sorted : List α} {k : κ} (hsub : (l.filter (key · = k)).Sublist sorted) (hperm : sorted.Perm l) :
    sorted.filter (key · = k) = l.filter (key · = k) := by
  have hfilter := hsub.filter (key · = k)
  simp only [List.filter_filter, Bool.and_self] at hfilter
  exact (hfilter.eq_of_length ((hperm.filter _).length_eq).symm).symm

/-- The elements of one key keep their order. -/
theorem filter_sort (key : α → κ) (l : List α) (k : κ) :
    (l.mergeSort fun x y => decide (key x ≤ key y)).filter (key · = k) = l.filter (key · = k) := by
  have htrans : ∀ a b c : α, decide (key a ≤ key b) = true → decide (key b ≤ key c) = true → decide (key a ≤ key c) = true := by
    intro a b c hab hbc
    rw [decide_eq_true_iff] at hab hbc ⊢
    exact le_trans hab hbc
  have htotal : ∀ a b : α, (decide (key a ≤ key b) || decide (key b ≤ key a)) = true := by
    intro a b
    rw [Bool.or_eq_true, decide_eq_true_iff, decide_eq_true_iff]
    exact le_total _ _
  have hsame := (pairwise_filter_key key l k).imp fun h => decide_eq_true h
  exact filter_of_sublist (List.sublist_mergeSort htrans htotal hsame List.filter_sublist) (List.mergeSort_perm l _)

theorem filter_insertionSort (key : α → κ) (l : List α) (k : κ) :
    (l.insertionSort fun x y => key x ≤ key y).filter (key · = k) = l.filter (key · = k) :=
  filter_of_sublist (List.sublist_insertionSort (pairwise_filter_key key l k) List.filter_sublist) (List.perm_insertionSort ..)

theorem pairwise_insertionSort (key : α → κ) (l : List α) :
    (l.insertionSort fun x y => key x ≤ key y).Pairwise fun x y => key x ≤ key y := by
  have : Std.Total fun x y : α => key x ≤ key y := ⟨fun x y => le_total (key x) (key y)⟩
  have : IsTrans α fun x y : α => key x ≤ key y := ⟨fun _ _ _ => le_trans⟩
  exact List.pairwise_insertionSort _ l

/-- A sorted list is known by its elements of each key. -/
theorem eq_of_filters (key : α → κ) (hl : l.Pairwise fun x y => key x ≤ key y) (hm : m.Pairwise fun x y => key x ≤ key y)
    (h : ∀ k, l.filter (key · = k) = m.filter (key · = k)) : l = m := by
  have hmem : ∀ {l m : List α}, (∀ k, l.filter (key · = k) = m.filter (key · = k)) → ∀ a ∈ l, a ∈ m := by
    intro l m h a ha
    have hin : a ∈ l.filter (key · = key a) := List.mem_filter.mpr ⟨ha, by simp⟩
    rw [h] at hin
    exact (List.mem_filter.mp hin).1
  induction l generalizing m with
  | nil =>
    cases m with
    | nil => rfl
    | cons b m => exact absurd (hmem (fun k => (h k).symm) b (List.mem_cons_self ..)) List.not_mem_nil
  | cons a l ih =>
    cases m with
    | nil => exact absurd (hmem h a (List.mem_cons_self ..)) List.not_mem_nil
    | cons b m =>
      rw [List.pairwise_cons] at hl hm
      -- both heads have the least key
      have hab : key a ≤ key b := by
        rcases List.mem_cons.mp (hmem (fun k => (h k).symm) b (List.mem_cons_self ..)) with e | hb
        · exact le_of_eq (congrArg key e).symm
        · exact hl.1 b hb
      have hba : key b ≤ key a := by
        rcases List.mem_cons.mp (hmem h a (List.mem_cons_self ..)) with e | ha
        · exact le_of_eq (congrArg key e).symm
        · exact hm.1 a ha
      have hkey := le_antisymm hab hba
      have hhead := h (key a)
      rw [List.filter_cons_of_pos (by simp), List.filter_cons_of_pos (by simp [hkey])] at hhead
      obtain ⟨rfl, _⟩ := List.cons.inj hhead
      rw [ih hl.2 hm.2 fun k => ?_]
      have hk := h k
      by_cases he : key a = k
      · rw [List.filter_cons_of_pos (by simpa using he), List.filter_cons_of_pos (by simpa using he)] at hk
        exact (List.cons.inj hk).2
      · rwa [List.filter_cons_of_neg (by simpa using he), List.filter_cons_of_neg (by simpa using he)] at hk

/-! ## Searching -/

/-- What is found first has the property, and nothing of a smaller key has. -/
theorem find_sort {p : α → Bool} {a : α} (h : (l.mergeSort fun x y => decide (key x ≤ key y)).find? p = some a) :
    a ∈ l ∧ p a = true ∧ ∀ b ∈ l, key b < key a → p b = false := by
  obtain ⟨hp, before, after, hsplit, hbefore⟩ := List.find?_eq_some_iff_append.mp h
  have hmem : ∀ b, b ∈ before ++ a :: after ↔ b ∈ l := fun b => hsplit ▸ (List.mergeSort_perm l _).mem_iff
  refine ⟨(hmem a).mp (List.mem_append_right _ (List.mem_cons_self ..)), hp, fun b hb hlt => ?_⟩
  rcases List.mem_append.mp ((hmem b).mpr hb) with hb | hb
  · simpa using hbefore b hb
  · have hsorted := pairwise_sort key l
    rw [hsplit] at hsorted
    have hafter := (List.pairwise_append.mp hsorted).2.1
    rcases List.mem_cons.mp hb with rfl | hb
    · exact absurd hlt (lt_irrefl _)
    · exact absurd ((List.pairwise_cons.mp hafter).1 b hb) (not_le.mpr hlt)

theorem find_sort_none {p : α → Bool} {le : α → α → Bool} :
    (l.mergeSort le).find? p = none ↔ ∀ b ∈ l, p b = false := by
  simp [List.find?_eq_none, List.mem_mergeSort]

end LaunchPad.Lib.SortBy
