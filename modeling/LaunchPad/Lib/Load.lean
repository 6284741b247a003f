/-
  LaunchPad.Lib.Load — loads with one reserved surge: a steady demand that adds up, and a
  transient one of which only the largest is reserved, since one item surges at a time.

  Proved:
  - `Load.add_comm`, `Load.add_assoc`: loads form a commutative semigroup, so a total does
    not depend on the order of its items (`total_perm`) and splits at any point
    (`total_append`).
  - `Load.peak_le_total`, `Load.peak_lt_total`: items of no negative demand never lower the
    peak, and one of positive demand raises it.
-/
import Mathlib.Algebra.Order.Monoid.Defs
import Mathlib.Algebra.Order.Ring.Int
import Mathlib.Data.List.Perm.Basic
import Mathlib.Order.Lattice

namespace LaunchPad.Lib

@[ext]
structure Load (α : Type) where
  steady : α
  surge : α
  deriving DecidableEq, Repr

namespace Load

variable {α : Type} [AddCommMonoid α] [LinearOrder α]

instance : Add (Load α) := ⟨fun a b => ⟨a.steady + b.steady, max a.surge b.surge⟩⟩

@[simp] theorem add_steady (a b : Load α) : (a + b).steady = a.steady + b.steady := rfl
@[simp] theorem add_surge (a b : Load α) : (a + b).surge = max a.surge b.surge := rfl

protected theorem add_comm (a b : Load α) : a + b = b + a := by
  ext
  · exact add_comm _ _
  · exact max_comm _ _

protected theorem add_assoc (a b c : Load α) : a + b + c = a + (b + c) := by
  ext
  · exact add_assoc _ _ _
  · exact max_assoc _ _ _

instance : Std.Commutative (α := Load α) (· + ·) := ⟨Load.add_comm⟩
instance : Std.Associative (α := Load α) (· + ·) := ⟨Load.add_assoc⟩

/-- The steady demand with the reserved surge on top. -/
def peak (a : Load α) : α := a.steady + a.surge

/-- A load with the items of a list on top. -/
def total (a : Load α) (l : List (Load α)) : Load α := l.foldl (· + ·) a

@[simp] theorem total_nil (a : Load α) : total a [] = a := rfl
@[simp] theorem total_cons (a x : Load α) (l : List (Load α)) : total a (x :: l) = total (a + x) l := rfl

theorem total_append (a : Load α) (l l' : List (Load α)) : total a (l ++ l') = total (total a l) l' :=
  List.foldl_append ..

theorem total_perm (a : Load α) {l l' : List (Load α)} (h : l.Perm l') : total a l = total a l' :=
  h.foldl_op_eq

theorem total_steady (a : Load α) (l : List (Load α)) :
    (total a l).steady = l.foldl (fun s x => s + x.steady) a.steady := by
  induction l generalizing a with
  | nil => rfl
  | cons x l ih => exact ih (a + x)

theorem total_surge (a : Load α) (l : List (Load α)) :
    (total a l).surge = l.foldl (fun m x => max m x.surge) a.surge := by
  induction l generalizing a with
  | nil => rfl
  | cons x l ih => exact ih (a + x)

/-- The reserved surge stays within a bound when each item's does. -/
theorem total_surge_le {a : Load α} {l : List (Load α)} {b : α} :
    (total a l).surge ≤ b ↔ a.surge ≤ b ∧ ∀ x ∈ l, x.surge ≤ b := by
  induction l generalizing a with
  | nil => simp
  | cons x l ih => simp [ih, and_assoc]

theorem total_steady_sum (a : Load α) (l : List (Load α)) : (total a l).steady = a.steady + (l.map (·.steady)).sum := by
  induction l generalizing a with
  | nil => simp
  | cons x l ih => simp [ih, add_assoc]

theorem total_swap (a : Load α) (l l' : List (Load α)) : total (total a l) l' = total (total a l') l := by
  rw [← total_append, ← total_append]
  exact total_perm a List.perm_append_comm

section Ordered

variable [IsOrderedAddMonoid α]

theorem peak_le_add {a b : Load α} (h : 0 ≤ b.steady) : a.peak ≤ (a + b).peak :=
  add_le_add (le_add_of_nonneg_right h) (le_max_left _ _)

theorem steady_le_total {a : Load α} {l : List (Load α)} (h : ∀ x ∈ l, 0 ≤ x.steady) : a.steady ≤ (total a l).steady := by
  induction l generalizing a with
  | nil => exact le_refl _
  | cons x l ih =>
    have hrest := ih (a := a + x) fun y hy => h y (List.mem_cons_of_mem _ hy)
    exact (le_add_of_nonneg_right (h x (List.mem_cons_self ..))).trans hrest

theorem peak_le_total {a : Load α} {l : List (Load α)} (h : ∀ x ∈ l, 0 ≤ x.steady) : a.peak ≤ (total a l).peak := by
  induction l generalizing a with
  | nil => exact le_refl _
  | cons x l ih =>
    exact (peak_le_add (h x (List.mem_cons_self ..))).trans (ih fun y hy => h y (List.mem_cons_of_mem _ hy))

end Ordered

theorem peak_lt_add [IsOrderedCancelAddMonoid α] {a b : Load α} (h : 0 < b.steady) : a.peak < (a + b).peak :=
  add_lt_add_of_lt_of_le (lt_add_of_pos_right _ h) (le_max_left _ _)

theorem peak_lt_total [IsOrderedCancelAddMonoid α] {a x : Load α} {l : List (Load α)} (hx : x ∈ l)
    (hpos : 0 < x.steady) (h : ∀ y ∈ l, 0 ≤ y.steady) : a.peak < (total a l).peak := by
  have hperm := List.perm_cons_erase hx
  rw [total_perm a hperm, total_cons]
  exact (peak_lt_add hpos).trans_le (peak_le_total fun y hy => h y (List.mem_of_mem_erase hy))

end Load

end LaunchPad.Lib
