/-
  LaunchPad.Lib.FirstSeen — grouping by key in first-seen order: a map beside the list of
  its keys in the order they first came.

  Proved:
  - `mem_entries`: the entries are exactly what the map holds.
  - `entries_keys`, `upsert_nodup`: each key comes once.
  - `mem_group`: a list of pairs, grouped, is its values by key.
  - `get_ofPairs`: setting the pairs of a list where a key has one value gives those pairs.
  - `get_ofList`: over a list whose elements name their keys the last element of a key stands.
  - `hasAt_upsert`: over groups whose elements are a list, an update that appends `xs` adds
    the elements of `xs` to its own group, and no others.
-/
import LaunchPad.Lib.SortedMap
import Mathlib.Data.List.Nodup

namespace LaunchPad.Lib

structure FirstSeen (κ α : Type) [DecidableEq κ] where
  order : List κ
  byKey : SortedMap κ α
  /-- The keys of the map are the keys of the list. -/
  mem_order : ∀ k, k ∈ order ↔ (SortedMap.get k byKey).isSome

namespace FirstSeen

variable {κ α β : Type} [DecidableEq κ]

def empty : FirstSeen κ α := ⟨[], [], fun k => by simp [SortedMap.get]⟩

/-- The groups, in first-seen order. -/
def entries (g : FirstSeen κ α) : List (κ × α) :=
  g.order.filterMap fun k => (SortedMap.get k g.byKey).map fun a => (k, a)

theorem mem_entries {g : FirstSeen κ α} {k : κ} {a : α} :
    (k, a) ∈ g.entries ↔ SortedMap.get k g.byKey = some a := by
  unfold entries
  rw [List.mem_filterMap]
  constructor
  · intro ⟨k', _, h⟩
    obtain ⟨a', ha, e⟩ := Option.map_eq_some_iff.mp h
    cases e
    exact ha
  · intro h
    exact ⟨k, (g.mem_order k).mpr (h ▸ rfl), by rw [h]; rfl⟩

theorem entries_keys (g : FirstSeen κ α) : g.entries.map (·.1) = g.order := by
  have hall : ∀ l : List κ, (∀ k ∈ l, (SortedMap.get k g.byKey).isSome) →
      (l.filterMap fun k => (SortedMap.get k g.byKey).map fun a => (k, a)).map (·.1) = l := by
    intro l
    induction l with
    | nil => intro _; rfl
    | cons k l ih =>
      intro h
      obtain ⟨a, ha⟩ := Option.isSome_iff_exists.mp (h k (List.mem_cons_self ..))
      rw [List.filterMap_cons, ha, Option.map_some, List.map_cons, ih fun x hx => h x (List.mem_cons_of_mem _ hx)]
  exact hall g.order fun k hk => (g.mem_order k).mp hk

variable (elems : α → List β)

/-- The group of that key has the element. -/
def HasAt (g : FirstSeen κ α) (k : κ) (x : β) : Prop := ∃ a, SortedMap.get k g.byKey = some a ∧ x ∈ elems a

@[simp] theorem hasAt_empty (k : κ) (x : β) : ¬ HasAt elems (empty : FirstSeen κ α) k x := by
  intro ⟨a, h, _⟩
  cases h

variable {elems}

theorem hasAt_iff {g : FirstSeen κ α} {k : κ} {x : β} : HasAt elems g k x ↔ ∃ e ∈ g.entries, e.1 = k ∧ x ∈ elems e.2 := by
  constructor
  · intro ⟨a, h, hx⟩
    exact ⟨(k, a), mem_entries.mpr h, rfl, hx⟩
  · intro ⟨⟨k', a⟩, h, hk, hx⟩
    obtain rfl : k' = k := hk
    exact ⟨a, mem_entries.mp h, hx⟩

variable [LT κ] [DecidableLT κ]

/-- Give `k` the group `f` makes of its present one; a new key comes last. -/
def upsert (k : κ) (f : Option α → α) (g : FirstSeen κ α) : FirstSeen κ α where
  order := if (SortedMap.get k g.byKey).isSome then g.order else g.order ++ [k]
  byKey := SortedMap.insert k (f (SortedMap.get k g.byKey)) g.byKey
  mem_order := by
    intro j
    rw [SortedMap.get_insert]
    by_cases hj : j = k
    · subst hj
      split
      · rename_i h; simp [(g.mem_order j).mpr h]
      · simp
    · split <;> simp [hj, g.mem_order j]

@[simp] theorem get_upsert (k j : κ) (f : Option α → α) (g : FirstSeen κ α) :
    SortedMap.get j (g.upsert k f).byKey =
      if j = k then some (f (SortedMap.get k g.byKey)) else SortedMap.get j g.byKey :=
  SortedMap.get_insert k j _ g.byKey

/-- A key is listed once. -/
theorem upsert_nodup {k : κ} {f : Option α → α} {g : FirstSeen κ α} (h : g.order.Nodup) : (g.upsert k f).order.Nodup := by
  unfold upsert
  dsimp only
  split
  · exact h
  · rename_i hnew
    rw [List.nodup_append]
    refine ⟨h, by simp, ?_⟩
    intro a ha b hb hab
    obtain rfl := List.mem_singleton.mp hb
    exact hnew ((g.mem_order b).mp (hab ▸ ha))

/-- A new key comes last. -/
theorem entries_upsert_new {k : κ} {f : Option α → α} {g : FirstSeen κ α} (h : k ∉ g.order) :
    (g.upsert k f).entries = g.entries ++ [(k, f none)] := by
  have hnone : SortedMap.get k g.byKey = none := by
    rw [g.mem_order, Option.not_isSome_iff_eq_none] at h
    exact h
  have horder : (g.upsert k f).order = g.order ++ [k] := by
    unfold upsert
    dsimp only
    rw [hnone]
    rfl
  unfold entries
  rw [horder, List.filterMap_append]
  congr 1
  · refine List.filterMap_congr fun j hj => ?_
    have hne : j ≠ k := fun e => h (e ▸ hj)
    rw [get_upsert, if_neg hne]
  · rw [List.filterMap_cons, get_upsert, if_pos rfl, hnone]
    rfl

theorem mem_order_upsert {k j : κ} {f : Option α → α} {g : FirstSeen κ α} :
    j ∈ (g.upsert k f).order ↔ j = k ∨ j ∈ g.order := by
  rw [mem_order, get_upsert, mem_order]
  by_cases hj : j = k <;> simp [hj]

theorem hasAt_upsert {k j : κ} {f : Option α → α} {g : FirstSeen κ α} {xs : List β}
    (hf : ∀ o, elems (f o) = ((o.map elems).getD []) ++ xs) {x : β} :
    HasAt elems (g.upsert k f) j x ↔ HasAt elems g j x ∨ j = k ∧ x ∈ xs := by
  unfold HasAt
  rw [get_upsert]
  by_cases hj : j = k
  · subst hj
    rw [if_pos rfl]
    simp only [Option.some.injEq, exists_eq_left', hf, List.mem_append, true_and]
    apply or_congr_left
    cases SortedMap.get j g.byKey <;> simp
  · rw [if_neg hj]
    simp [hj]

/-! ## Grouping a list of pairs -/

/-- Each key with its values, in order. -/
def group (l : List (κ × β)) : FirstSeen κ (List β) :=
  l.foldl (fun g e => g.upsert e.1 fun o => o.getD [] ++ [e.2]) empty

theorem group_spec (l : List (κ × β)) {g : FirstSeen κ (List β)} (hg : g.order.Nodup) (k : κ) :
    (l.foldl (fun g e => g.upsert e.1 fun o => o.getD [] ++ [e.2]) g).order.Nodup ∧
      SortedMap.get k (l.foldl (fun g e => g.upsert e.1 fun o => o.getD [] ++ [e.2]) g).byKey =
        if (l.filter (·.1 = k)) = [] then SortedMap.get k g.byKey
        else some ((SortedMap.get k g.byKey).getD [] ++ (l.filter (·.1 = k)).map (·.2)) := by
  induction l generalizing g with
  | nil => simp [hg]
  | cons e l ih =>
    obtain ⟨hnd, hget⟩ := ih (upsert_nodup (k := e.1) (f := fun o => o.getD [] ++ [e.2]) hg)
    refine ⟨hnd, ?_⟩
    rw [List.foldl_cons, hget, get_upsert]
    by_cases hk : k = e.1
    · subst hk
      by_cases hl : l.filter (·.1 = e.1) = [] <;> simp [hl]
    · have hne : e.1 ≠ k := fun h => hk h.symm
      rw [if_neg hk, List.filter_cons_of_neg (by simpa using hne)]

theorem group_nodup (l : List (κ × β)) : ((group l).entries.map (·.1)).Nodup := by
  rw [entries_keys]
  cases l with
  | nil => exact List.nodup_nil
  | cons e l => exact (group_spec (e :: l) List.nodup_nil e.1).1

theorem mem_group {l : List (κ × β)} {k : κ} {vs : List β} :
    (k, vs) ∈ (group l).entries ↔ vs = (l.filter (·.1 = k)).map (·.2) ∧ vs ≠ [] := by
  rw [mem_entries, group, (group_spec l (g := empty) List.nodup_nil k).2]
  have hempty : SortedMap.get k (empty : FirstSeen κ (List β)).byKey = none := rfl
  rw [hempty]
  by_cases hl : l.filter (·.1 = k) = []
  · rw [if_pos hl, hl]
    constructor
    · intro h; cases h
    · intro ⟨h, hne⟩; exact absurd h hne
  · rw [if_neg hl, Option.getD_none, List.nil_append]
    constructor
    · intro h
      obtain rfl := Option.some.inj h
      exact ⟨rfl, fun h => hl (List.map_eq_nil_iff.mp h)⟩
    · intro ⟨h, _⟩
      rw [h]

/-! ## A list of pairs, the last of a key standing -/

section OfPairs

/-- Each pair set in turn. -/
def ofPairs (l : List (κ × α)) : FirstSeen κ α := l.foldl (fun g e => g.upsert e.1 fun _ => e.2) empty

theorem get_foldl_set (l : List (κ × α)) (g : FirstSeen κ α) (k : κ) :
    SortedMap.get k (l.foldl (fun g e => g.upsert e.1 fun _ => e.2) g).byKey =
      (((l.filter (·.1 = k)).getLast?).map (·.2)).or (SortedMap.get k g.byKey) := by
  induction l generalizing g with
  | nil => rfl
  | cons e l ih =>
    rw [List.foldl_cons, ih, get_upsert]
    by_cases hk : e.1 = k
    · rw [if_pos hk.symm, List.filter_cons_of_pos (by simpa using hk), List.getLast?_cons]
      cases (l.filter (·.1 = k)).getLast? <;> rfl
    · rw [if_neg fun h => hk h.symm, List.filter_cons_of_neg (by simpa using hk)]

/-- Where a key has one value, that is its value. -/
theorem get_ofPairs {l : List (κ × α)} {k : κ} (hl : ∀ a b, (k, a) ∈ l → (k, b) ∈ l → a = b) {a : α} :
    SortedMap.get k (ofPairs l).byKey = some a ↔ (k, a) ∈ l := by
  have hfold : SortedMap.get k (ofPairs l).byKey = ((l.filter (·.1 = k)).getLast?).map (·.2) := by
    unfold ofPairs
    rw [get_foldl_set]
    cases ((l.filter (·.1 = k)).getLast?).map (·.2) <;> rfl
  rw [hfold, Option.map_eq_some_iff]
  constructor
  · intro ⟨e, he, ha⟩
    obtain ⟨hmem, hk⟩ := List.mem_filter.mp (List.mem_of_getLast? he)
    obtain rfl := of_decide_eq_true hk
    rwa [← ha]
  · intro hmem
    have hin : (k, a) ∈ l.filter (·.1 = k) := List.mem_filter.mpr ⟨hmem, by simp⟩
    cases hlast : (l.filter (·.1 = k)).getLast? with
    | none => rw [List.getLast?_eq_none_iff.mp hlast] at hin; cases hin
    | some e =>
      obtain ⟨he, hk⟩ := List.mem_filter.mp (List.mem_of_getLast? hlast)
      obtain rfl := of_decide_eq_true hk
      exact ⟨e, rfl, hl e.2 a he hmem⟩

/-- Where no key comes twice, the map is the list. -/
theorem get_ofPairs_nodup {l : List (κ × α)} (hl : (l.map (·.1)).Nodup) (k : κ) :
    SortedMap.get k (ofPairs l).byKey = SortedMap.get k l := by
  refine Option.ext fun a => ?_
  rw [get_ofPairs fun a b ha hb => congrArg (·.2) (List.inj_on_of_nodup_map hl ha hb rfl)]
  exact ⟨SortedMap.get_of_mem hl, SortedMap.get_mem⟩

end OfPairs

/-! ## A list whose elements name their keys -/

section OfList

variable (key : α → κ)

/-- A later element of a key replaces the earlier, in its place. -/
def ofList (l : List α) : FirstSeen κ α := l.foldl (fun g a => g.upsert (key a) fun _ => a) empty

theorem get_foldl_upsert (l : List α) (g : FirstSeen κ α) (k : κ) :
    SortedMap.get k (l.foldl (fun g a => g.upsert (key a) fun _ => a) g).byKey =
      ((l.filter (key · = k)).getLast?).or (SortedMap.get k g.byKey) := by
  induction l generalizing g with
  | nil => rfl
  | cons a l ih =>
    rw [List.foldl_cons, ih, get_upsert]
    by_cases hk : key a = k
    · rw [if_pos hk.symm, List.filter_cons_of_pos (by simpa using hk), List.getLast?_cons]
      cases (l.filter (key · = k)).getLast? <;> rfl
    · rw [if_neg fun h => hk h.symm, List.filter_cons_of_neg (by simpa using hk)]

/-- The last element of a key stands. -/
theorem get_ofList (l : List α) (k : κ) :
    SortedMap.get k (ofList key l).byKey = (l.filter (key · = k)).getLast? := by
  unfold ofList
  rw [get_foldl_upsert]
  cases (l.filter (key · = k)).getLast? <;> rfl

variable {key} {l : List α} {k : κ} {a : α}

theorem get_ofList_some (h : SortedMap.get k (ofList key l).byKey = some a) : a ∈ l ∧ key a = k := by
  rw [get_ofList] at h
  obtain ⟨hmem, hk⟩ := List.mem_filter.mp (List.mem_of_getLast? h)
  exact ⟨hmem, of_decide_eq_true hk⟩

theorem get_ofList_none : SortedMap.get k (ofList key l).byKey = none ↔ ∀ a ∈ l, key a ≠ k := by
  rw [get_ofList, List.getLast?_eq_none_iff, List.filter_eq_nil_iff]
  simp

/-- Where no key comes twice, the map is the list. -/
theorem get_ofList_nodup (hl : (l.map key).Nodup) :
    SortedMap.get k (ofList key l).byKey = some a ↔ a ∈ l ∧ key a = k := by
  constructor
  · exact get_ofList_some
  · intro ⟨ha, hk⟩
    cases hget : SortedMap.get k (ofList key l).byKey with
    | none => exact absurd hk (get_ofList_none.mp hget a ha)
    | some b =>
      obtain ⟨hb, hbk⟩ := get_ofList_some hget
      rw [List.inj_on_of_nodup_map hl hb ha (hbk.trans hk.symm)]

/-- Taking keys out of the list takes them out of the map. -/
theorem get_ofList_filter (keep : κ → Bool) :
    SortedMap.get k (ofList key (l.filter fun a => keep (key a))).byKey =
      if keep k then SortedMap.get k (ofList key l).byKey else none := by
  rw [get_ofList, get_ofList, List.filter_filter]
  by_cases hk : keep k
  · rw [if_pos hk]
    congr 1
    refine List.filter_congr fun a _ => ?_
    by_cases ha : key a = k <;> simp [ha, hk]
  · rw [if_neg hk, List.getLast?_eq_none_iff, List.filter_eq_nil_iff]
    intro a _ h
    simp only [Bool.and_eq_true, decide_eq_true_eq] at h
    exact hk (h.1 ▸ h.2)

end OfList

end FirstSeen

end LaunchPad.Lib
