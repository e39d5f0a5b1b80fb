import Mathlib.Algebra.BigOperators.Group.Finset.Piecewise
import Mathlib.Algebra.Order.Floor.Ring
import Mathlib.Algebra.Order.BigOperators.Group.Finset
import Mathlib.Algebra.Order.BigOperators.Group.List
import Mathlib.Tactic.Abel

/-!
# Sums that are rounded part by part

The parts of a sum are rounded down one by one and then added up in groups, by a key. A group
loses the fractional parts of its members (`sum_floor`), so it stays within one of its exact
sum exactly if these add up to less than one (`floors_within_one_iff`).
-/

namespace Rounding

section
variable {α κ M : Type*} [DecidableEq κ] [AddCommMonoid M] {key : α → κ}

/-- A sum is the sum over its groups. -/
theorem sum_groups (key : α → κ) (f : α → M) {keys : Finset κ} {l : List α} (covers : ∀ a ∈ l, key a ∈ keys) :
    ∑ k ∈ keys, ((l.filter fun a => key a = k).map f).sum = (l.map f).sum := by
  induction l with
  | nil => simp
  | cons a l ih =>
    have one : ∀ k, (((a :: l).filter fun a => key a = k).map f).sum =
        (if key a = k then f a else 0) + ((l.filter fun a => key a = k).map f).sum := by
      intro k
      by_cases same : key a = k <;> simp [same]
    simp only [one, Finset.sum_add_distrib, Finset.sum_ite_eq, if_pos (covers a List.mem_cons_self)]
    rw [ih fun a member => covers a (List.mem_cons_of_mem _ member), List.map_cons, List.sum_cons]

end

section
variable {α R : Type*} [Ring R] [LinearOrder R] [FloorRing R] {f : α → R} {l : List α}

/-- What rounding down takes away. -/
theorem sum_floor (f : α → R) (l : List α) :
    (((l.map fun a => ⌊f a⌋).sum : ℤ) : R) = (l.map f).sum - (l.map fun a => Int.fract (f a)).sum := by
  induction l with
  | nil => simp
  | cons a l ih =>
    have head : ((⌊f a⌋ : ℤ) : R) = f a - Int.fract (f a) := (Int.self_sub_fract (f a)).symm
    simp only [List.map_cons, List.sum_cons, Int.cast_add, ih, head]
    abel

variable [IsStrictOrderedRing R]

theorem sum_fract_nonneg : 0 ≤ (l.map fun a => Int.fract (f a)).sum :=
  List.sum_nonneg fun x member => by
    obtain ⟨a, -, rfl⟩ := List.mem_map.mp member
    exact Int.fract_nonneg (f a)

/-- When the rounded parts make up all but less than one of the sum. -/
theorem floors_within_one_iff :
    ((l.map f).sum - 1 < ((l.map fun a => ⌊f a⌋).sum : ℤ) ∧ (((l.map fun a => ⌊f a⌋).sum : ℤ) : R) ≤ (l.map f).sum) ↔
      (l.map fun a => Int.fract (f a)).sum < 1 := by
  rw [sum_floor, sub_lt_sub_iff_left]
  exact and_iff_left (sub_le_self _ sum_fract_nonneg)

/-- If every group stays within one, all of them together lose less than their number. -/
theorem lost_lt_card {κ : Type*} [DecidableEq κ] {key : α → κ} {keys : Finset κ} (nonempty : keys.Nonempty) (covers : ∀ a ∈ l, key a ∈ keys)
    (each : ∀ k ∈ keys, ((l.filter fun a => key a = k).map fun a => Int.fract (f a)).sum < 1) :
    (l.map f).sum - ((l.map fun a => ⌊f a⌋).sum : ℤ) < keys.card := by
  have lost : (l.map f).sum - ((l.map fun a => ⌊f a⌋).sum : ℤ) = (l.map fun a => Int.fract (f a)).sum := by
    rw [sum_floor]
    abel
  rw [lost, ← sum_groups key (fun a => Int.fract (f a)) covers]
  calc _ < ∑ _k ∈ keys, (1 : R) := Finset.sum_lt_sum_of_nonempty nonempty each
    _ = keys.card := by simp

end

end Rounding
