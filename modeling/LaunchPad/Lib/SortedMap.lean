/-
  LaunchPad.Lib.SortedMap — maps with ordered keys, kept as association lists in key
  order: what iterating a `BTreeMap` yields. The laws of `get` hold of every list of
  pairs, so no operation needs the list to be sorted.

  Proved:
  - `get_insert`, `get_mapValues`, `get_filterKeys`: what each operation does to each key.
  - `Sorted.ext`: two maps in key order with the same values are the same list.
-/
import Mathlib.Order.RelClasses

namespace LaunchPad.Lib

abbrev SortedMap (κ β : Type) := List (κ × β)

namespace SortedMap

variable {κ β : Type} [DecidableEq κ]

def get (k : κ) : SortedMap κ β → Option β
  | [] => none
  | (k', v) :: m => if k' = k then some v else get k m

def contains (k : κ) (m : SortedMap κ β) : Bool := (get k m).isSome

def erase (k : κ) (m : SortedMap κ β) : SortedMap κ β := m.filter (·.1 ≠ k)

def keys (m : SortedMap κ β) : List κ := m.map (·.1)

/-- Keep the entries whose key satisfies `p`. -/
def filterKeys (p : κ → Bool) (m : SortedMap κ β) : SortedMap κ β := m.filter (p ·.1)

theorem get_mem {k : κ} {v : β} {m : SortedMap κ β} (h : get k m = some v) : (k, v) ∈ m := by
  induction m with
  | nil => cases h
  | cons e m ih =>
    obtain ⟨k', v'⟩ := e
    simp only [get] at h
    split at h
    · rename_i hk; cases h; subst hk; exact List.mem_cons_self ..
    · exact List.mem_cons_of_mem _ (ih h)

theorem get_of_mem {k : κ} {v : β} {m : SortedMap κ β} (hnd : (m.map (·.1)).Nodup) (h : (k, v) ∈ m) :
    get k m = some v := by
  induction m with
  | nil => cases h
  | cons e m ih =>
    rw [List.map_cons, List.nodup_cons] at hnd
    rcases List.mem_cons.mp h with rfl | h
    · simp [get]
    · have hne : e.1 ≠ k := by
        rintro rfl
        exact hnd.1 (List.mem_map.mpr ⟨_, h, rfl⟩)
      simp only [get, if_neg hne]
      exact ih hnd.2 h

theorem get_filterKeys (p : κ → Bool) (k : κ) (m : SortedMap κ β) :
    get k (filterKeys p m) = if p k then get k m else none := by
  induction m with
  | nil => simp [filterKeys, get]
  | cons e m ih =>
    obtain ⟨k', v⟩ := e
    simp only [filterKeys] at ih
    by_cases hk : k' = k
    · subst hk
      by_cases hp : p k' = true
      · simp [filterKeys, get, hp]
      · simp only [filterKeys, List.filter_cons, hp, Bool.false_eq_true, if_false] at ih ⊢
        exact ih
    · by_cases hp : p k' = true
      · simpa [filterKeys, get, hp, hk] using ih
      · simpa [filterKeys, get, hp, hk] using ih

omit [DecidableEq κ] in
theorem filterKeys_filterKeys {p q : κ → Bool} (h : ∀ k, p k = true → q k = true) (m : SortedMap κ β) :
    filterKeys p (filterKeys q m) = filterKeys p m := by
  unfold filterKeys
  rw [List.filter_filter]
  apply List.filter_congr
  intro e _
  cases hp : p e.1 with
  | false => rfl
  | true => rw [h _ hp]; rfl

theorem get_erase (k j : κ) (m : SortedMap κ β) : get j (erase k m) = if j = k then none else get j m := by
  have h := get_filterKeys (fun x => decide (x ≠ k)) j m
  simp only [filterKeys, decide_eq_true_eq] at h
  rw [erase, h]
  by_cases e : j = k <;> simp [e]

theorem get_mapValues {γ : Type} (f : κ → β → γ) (k : κ) (m : SortedMap κ β) :
    get k (m.map fun e => (e.1, f e.1 e.2)) = (get k m).map (f k) := by
  induction m with
  | nil => rfl
  | cons e m ih =>
    obtain ⟨k', v⟩ := e
    simp only [List.map_cons, get]
    by_cases hk : k' = k
    · subst hk; simp
    · simp [hk, ih]

variable [LT κ] [DecidableLT κ]

def insert (k : κ) (v : β) : SortedMap κ β → SortedMap κ β
  | [] => [(k, v)]
  | (k', v') :: m =>
    if k' = k then (k, v) :: m
    else if k < k' then (k, v) :: (k', v') :: m
    else (k', v') :: insert k v m

theorem get_insert_self (k : κ) (v : β) (m : SortedMap κ β) : get k (insert k v m) = some v := by
  induction m with
  | nil => simp [insert, get]
  | cons e m ih =>
    obtain ⟨k', v'⟩ := e
    simp only [insert]
    split
    · simp [get]
    · rename_i hk
      split
      · simp [get]
      · simp [get, hk, ih]

theorem get_insert_ne {k j : κ} (h : j ≠ k) (v : β) (m : SortedMap κ β) : get j (insert k v m) = get j m := by
  induction m with
  | nil => simp [insert, get, Ne.symm h]
  | cons e m ih =>
    obtain ⟨k', v'⟩ := e
    simp only [insert]
    split
    · rename_i hk; subst hk; simp [get, Ne.symm h]
    · split
      · simp [get, Ne.symm h]
      · simp only [get, ih]

theorem get_insert (k j : κ) (v : β) (m : SortedMap κ β) :
    get j (insert k v m) = if j = k then some v else get j m := by
  by_cases e : j = k
  · subst e; simp [get_insert_self]
  · simp [e, get_insert_ne]

/-- A filter that refuses the key does not see it inserted. -/
theorem filterKeys_insert {p : κ → Bool} {k : κ} (h : p k = false) (v : β) (m : SortedMap κ β) :
    filterKeys p (insert k v m) = filterKeys p m := by
  induction m with
  | nil => simp [insert, filterKeys, h]
  | cons e m ih =>
    obtain ⟨k', v'⟩ := e
    unfold filterKeys at ih ⊢
    simp only [insert]
    split
    · rename_i hk; subst hk; simp [h]
    · split
      · simp [h]
      · simp only [List.filter_cons, ih]

theorem mem_insert {k : κ} {v : β} {e : κ × β} {m : SortedMap κ β} (h : e ∈ insert k v m) : e = (k, v) ∨ e ∈ m := by
  induction m with
  | nil => exact .inl (List.mem_singleton.mp h)
  | cons e' m ih =>
    simp only [insert] at h
    split at h
    · rcases List.mem_cons.mp h with h | h
      · exact .inl h
      · exact .inr (List.mem_cons_of_mem _ h)
    · split at h
      · rcases List.mem_cons.mp h with h | h
        · exact .inl h
        · exact .inr h
      · rcases List.mem_cons.mp h with h | h
        · exact .inr (h ▸ List.mem_cons_self ..)
        · exact (ih h).imp_right (List.mem_cons_of_mem _)

/-- A new key is one more entry. -/
theorem perm_insert {k : κ} {m : SortedMap κ β} (h : get k m = none) (v : β) : (insert k v m).Perm ((k, v) :: m) := by
  induction m with
  | nil => exact List.Perm.refl _
  | cons e m ih =>
    obtain ⟨k', v'⟩ := e
    unfold get at h
    unfold insert
    split at h
    · cases h
    · rename_i hne
      rw [if_neg hne]
      split
      · exact List.Perm.refl _
      · exact ((ih h).cons _).trans (List.Perm.swap _ _ _)

theorem get_foldl_insert (f : κ → β) (k : κ) (ks : List κ) (m : SortedMap κ β) :
    get k (ks.foldl (fun m e => insert e (f e) m) m) = if k ∈ ks then some (f k) else get k m := by
  induction ks generalizing m with
  | nil => simp
  | cons e ks ih =>
    rw [List.foldl_cons, ih, get_insert]
    by_cases hk : k = e
    · subst hk; simp
    · simp [hk]

/-- `entry(k).or_insert(v)`. -/
def insertNew (k : κ) (v : β) (m : SortedMap κ β) : SortedMap κ β := if contains k m then m else insert k v m

/-- After inserting pairs in order, a key has its last value among them. -/
theorem get_foldl_pairs (k : κ) (l : List (κ × β)) (m : SortedMap κ β) :
    get k (l.foldl (fun m e => insert e.1 e.2 m) m) = ((l.filter (·.1 = k)).getLast?.map (·.2)).or (get k m) := by
  induction l generalizing m with
  | nil => rfl
  | cons e l ih =>
    rw [List.foldl_cons, ih]
    by_cases h : e.1 = k
    · rw [List.filter_cons_of_pos (by simpa using h), List.getLast?_cons, get_insert, if_pos h.symm]
      cases (l.filter (·.1 = k)).getLast? <;> rfl
    · rw [List.filter_cons_of_neg (by simpa using h), get_insert, if_neg (Ne.symm h)]

theorem get_insertNew (k j : κ) (v : β) (m : SortedMap κ β) :
    get j (insertNew k v m) = if j = k then some ((get k m).getD v) else get j m := by
  unfold insertNew contains
  cases h : get k m with
  | none => by_cases e : j = k <;> simp [get_insert, e]
  | some x =>
    by_cases e : j = k
    · subst e; simp [h]
    · simp [e]

omit [LT κ] [DecidableLT κ] in
/-- Newer entries in front of a map. -/
theorem get_map_append (f : κ → β) (k : κ) (ks : List κ) (m : SortedMap κ β) :
    get k (ks.map (fun e => (e, f e)) ++ m) = if k ∈ ks then some (f k) else get k m := by
  induction ks with
  | nil => simp
  | cons e ks ih =>
    rw [List.map_cons, List.cons_append, get, ih]
    by_cases hk : e = k
    · subst hk; simp
    · simp [hk, Ne.symm hk]

/-! ## In key order -/

section Sorted

/-- In key order, each key once. -/
def Sorted (m : SortedMap κ β) : Prop := m.Pairwise fun a b => a.1 < b.1

variable [IsStrictTotalOrder κ (· < ·)]

theorem Sorted.insert {m : SortedMap κ β} (h : Sorted m) (k : κ) (v : β) : Sorted (insert k v m) := by
  induction m with
  | nil => exact List.pairwise_singleton _ _
  | cons e m ih =>
    obtain ⟨k', v'⟩ := e
    obtain ⟨hhead, htail⟩ := List.pairwise_cons.mp h
    unfold SortedMap.insert
    by_cases hsame : k' = k
    · subst hsame
      rw [if_pos rfl]
      exact List.pairwise_cons.mpr ⟨hhead, htail⟩
    rw [if_neg hsame]
    by_cases hlt : k < k'
    · rw [if_pos hlt]
      refine List.pairwise_cons.mpr ⟨fun e he => ?_, h⟩
      rcases List.mem_cons.mp he with rfl | he
      · exact hlt
      · exact trans_of (· < ·) hlt (hhead e he)
    · rw [if_neg hlt]
      refine List.pairwise_cons.mpr ⟨fun e he => ?_, ih htail⟩
      rcases mem_insert he with rfl | he
      · rcases trichotomous_of (· < ·) k' k with hgt | heq | hgt
        · exact hgt
        · exact absurd heq hsame
        · exact absurd hgt hlt
      · exact hhead e he

theorem Sorted.foldl_insert {m : SortedMap κ β} (h : Sorted m) (l : List (κ × β)) :
    Sorted (l.foldl (fun m e => SortedMap.insert e.1 e.2 m) m) := by
  induction l generalizing m with
  | nil => exact h
  | cons e l ih => exact ih (h.insert e.1 e.2)

omit [DecidableEq κ] [DecidableLT κ] [IsStrictTotalOrder κ (· < ·)] in
theorem Sorted.mapValues {γ : Type} {m : SortedMap κ β} (h : Sorted m) (f : κ → β → γ) :
    Sorted (m.map fun e => (e.1, f e.1 e.2)) := by
  unfold Sorted
  rw [List.pairwise_map]
  exact h

omit [DecidableEq κ] [DecidableLT κ] in
theorem Sorted.nodup {m : SortedMap κ β} (h : Sorted m) : (m.map (·.1)).Nodup := by
  unfold List.Nodup
  rw [List.pairwise_map]
  refine h.imp fun hlt heq => ?_
  rw [heq] at hlt
  exact irrefl_of (· < ·) _ hlt

omit [DecidableLT κ] in
/-- A key below the first one is absent. -/
theorem Sorted.get_below {k : κ} {e : κ × β} {m : SortedMap κ β} (h : Sorted (e :: m)) (hk : k < e.1) :
    get k (e :: m) = none := by
  induction m generalizing e with
  | nil =>
    have hne : e.1 ≠ k := fun heq => irrefl_of (· < ·) k (heq ▸ hk)
    simp [get, hne]
  | cons e' m ih =>
    have hne : e.1 ≠ k := fun heq => irrefl_of (· < ·) k (heq ▸ hk)
    obtain ⟨hhead, htail⟩ := List.pairwise_cons.mp h
    unfold get
    rw [if_neg hne]
    exact ih htail (trans_of (· < ·) hk (hhead e' List.mem_cons_self))

omit [DecidableLT κ] in
/-- Two sorted maps with the same values are the same list. -/
theorem Sorted.ext {m m' : SortedMap κ β} (h : Sorted m) (h' : Sorted m') (hget : ∀ k, get k m = get k m') : m = m' := by
  induction m generalizing m' with
  | nil =>
    cases m' with
    | nil => rfl
    | cons e m' =>
      have := hget e.1
      simp [get] at this
  | cons e m ih =>
    obtain ⟨k, v⟩ := e
    obtain ⟨hhead, htail⟩ := List.pairwise_cons.mp h
    cases m' with
    | nil =>
      have := hget k
      simp [get] at this
    | cons e' m' =>
      obtain ⟨k', v'⟩ := e'
      obtain ⟨hhead', htail'⟩ := List.pairwise_cons.mp h'
      have hk : k = k' := by
        rcases trichotomous_of (· < ·) k k' with hlt | heq | hgt
        · have := hget k
          rw [h'.get_below hlt] at this
          simp [get] at this
        · exact heq
        · have := hget k'
          rw [h.get_below hgt] at this
          simp [get] at this
      subst hk
      have hv : v = v' := by simpa [get] using hget k
      subst hv
      congr 1
      refine ih htail htail' fun j => ?_
      by_cases hj : k = j
      · subst hj
        have habsent : ∀ {m : SortedMap κ β}, Sorted ((k, v) :: m) → get k m = none := by
          intro m hm
          cases m with
          | nil => rfl
          | cons e m => exact Sorted.get_below (List.pairwise_cons.mp hm).2 ((List.pairwise_cons.mp hm).1 e List.mem_cons_self)
        rw [habsent h, habsent h']
      · simpa [get, hj] using hget j

end Sorted

end SortedMap

end LaunchPad.Lib
