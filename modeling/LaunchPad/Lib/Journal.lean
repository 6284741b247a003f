/-
  LaunchPad.Lib.Journal — a conditional object store as the journal of its writes, newest
  first. A version is the number of writes before the one that made it, so a version never
  names two bodies: a client that holds a body and its version knows what a conditional
  write on that version replaces.

  Proved:
  - `version_body`: the body read under a version is the body of the object while its
    version is that one.
  - `untouched`: while an object's version stays, nothing wrote to it.
-/

namespace LaunchPad.Lib

/-- One successful write or deletion (`body` is `none`), and who made it. -/
structure Write (ι κ α : Type) where
  writer : ι
  key : κ
  body : Option α
  deriving DecidableEq, Repr

abbrev Journal (ι κ α : Type) := List (Write ι κ α)

namespace Journal

variable {ι κ α : Type}

/-- The write that made a version. -/
def at? (v : Nat) : Journal ι κ α → Option (Write ι κ α)
  | [] => none
  | w :: j => if j.length = v then some w else at? v j

theorem at?_lt {v : Nat} {w : Write ι κ α} {j : Journal ι κ α} (h : at? v j = some w) : v < j.length := by
  induction j with
  | nil => cases h
  | cons e j ih =>
    rw [at?] at h
    rw [List.length_cons]
    split at h
    · omega
    · have := ih h
      omega

/-- A version keeps its write. -/
theorem at?_append {v : Nat} {w : Write ι κ α} {j : Journal ι κ α} (h : at? v j = some w) (newer : Journal ι κ α) :
    at? v (newer ++ j) = some w := by
  induction newer with
  | nil => exact h
  | cons e newer ih =>
    have hv := at?_lt h
    rw [List.cons_append, at?, if_neg (by rw [List.length_append]; omega)]
    exact ih

variable [DecidableEq κ]

/-- An object's version and body, when it exists. -/
def current (k : κ) : Journal ι κ α → Option (Nat × α)
  | [] => none
  | w :: j => if w.key = k then w.body.map fun a => (j.length, a) else current k j

theorem current_cons_ne {k : κ} {w : Write ι κ α} (h : w.key ≠ k) (j : Journal ι κ α) :
    current k (w :: j) = current k j := by
  rw [current, if_neg h]

theorem current_lt {k : κ} {v : Nat} {a : α} {j : Journal ι κ α} (h : current k j = some (v, a)) : v < j.length := by
  induction j with
  | nil => cases h
  | cons w j ih =>
    rw [current] at h
    rw [List.length_cons]
    split at h
    · obtain ⟨_, _, he⟩ := Option.map_eq_some_iff.mp h
      cases he
      omega
    · have := ih h
      omega

/-- What an object holds is what the write of its version wrote. -/
theorem at?_current {k : κ} {v : Nat} {a : α} {j : Journal ι κ α} (h : current k j = some (v, a)) :
    ∃ i, at? v j = some ⟨i, k, some a⟩ := by
  induction j with
  | nil => cases h
  | cons w j ih =>
    rw [current] at h
    split at h
    · rename_i hk
      obtain ⟨b, hb, he⟩ := Option.map_eq_some_iff.mp h
      cases he
      refine ⟨w.writer, ?_⟩
      rw [at?, if_pos rfl, ← hk, ← hb]
    · obtain ⟨i, hi⟩ := ih h
      exact ⟨i, at?_append hi [w]⟩

/-- A body that was read under a version is the object's while that is its version. -/
theorem version_body {k : κ} {v : Nat} {a b : α} {i : ι} {j : Journal ι κ α} (hread : at? v j = some ⟨i, k, some a⟩)
    (hnow : current k j = some (v, b)) : b = a := by
  obtain ⟨i', hi'⟩ := at?_current hnow
  rw [hread] at hi'
  cases hi'
  rfl

/-- While an object's version stays, nothing wrote to it. -/
theorem untouched {k : κ} {v : Nat} {a : α} {newer j : Journal ι κ α} (hv : v < j.length)
    (h : current k (newer ++ j) = some (v, a)) : ∀ w ∈ newer, w.key ≠ k := by
  induction newer with
  | nil => intro w hw; cases hw
  | cons e newer ih =>
    rw [List.cons_append, current] at h
    split at h
    · obtain ⟨_, _, he⟩ := Option.map_eq_some_iff.mp h
      have hlen := congrArg Prod.fst he
      simp only [List.length_append] at hlen
      omega
    · rename_i hk
      intro w hw
      rcases List.mem_cons.mp hw with rfl | hw
      · exact hk
      · exact ih h w hw

end Journal

end LaunchPad.Lib
