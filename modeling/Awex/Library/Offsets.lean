import Mathlib.Algebra.Order.BigOperators.Group.List
import Mathlib.Algebra.Ring.Int.Defs
import Mathlib.Data.Int.Range
import Mathlib.Data.List.Nodup

namespace Awex.Offsets

variable {α : Type}

theorem range_append {a b c : ℤ} (hab : a ≤ b) (hbc : b ≤ c) :
    Int.range a b ++ Int.range b c = Int.range a c := by
  have hlength : (c - a).toNat = (b - a).toNat + (c - b).toNat := by omega
  rw [Int.range, Int.range, Int.range, hlength, List.range_add, List.map_append, List.map_map]
  congr 1
  apply List.map_congr_left
  intro i _
  simp only [Function.comp_apply, Int.natCast_add]
  omega

theorem sum_map_comm {β : Type} (xs : List α) (ys : List β) (f : α → β → ℤ) :
    (xs.map (fun x => (ys.map (f x)).sum)).sum = (ys.map (fun y => (xs.map (fun x => f x y)).sum)).sum := by
  induction xs with
  | nil => simp
  | cons x xs ih => simp only [List.map_cons, List.sum_cons, ih, List.sum_map_add]

variable [DecidableEq α]

/-- What the items before `x` take together. -/
def offset (size : α → ℤ) (xs : List α) (x : α) : ℤ := ((xs.takeWhile (· ≠ x)).map size).sum

theorem offset_nonneg {size : α → ℤ} (h : ∀ x, 0 ≤ size x) (xs : List α) (x : α) : 0 ≤ offset size xs x := by
  apply List.sum_nonneg
  intro s hs
  obtain ⟨y, -, rfl⟩ := List.mem_map.mp hs
  exact h y

theorem offset_middle (size : α → ℤ) {front back : List α} {x : α} (h : x ∉ front) :
    offset size (front ++ x :: back) x = (front.map size).sum := by
  have htake : (front ++ x :: back).takeWhile (· ≠ x) = front := by
    rw [List.takeWhile_append_of_pos]
    · simp
    · intro y hy
      have hne : y ≠ x := fun heq => h (heq ▸ hy)
      simpa using hne
  rw [offset, htake]

theorem flatMap_offset_from {size : α → ℤ} {xs : List α} (hsize : ∀ x ∈ xs, 0 ≤ size x) (hnodup : xs.Nodup)
    (front rest : List α) (hxs : xs = front ++ rest) :
    rest.flatMap (fun x => Int.range (offset size xs x) (offset size xs x + size x)) =
      Int.range (front.map size).sum ((front.map size).sum + (rest.map size).sum) := by
  induction rest generalizing front with
  | nil => simp [Int.range]
  | cons x rest ih =>
    have hfront : x ∉ front := by
      rw [hxs, List.nodup_append] at hnodup
      exact fun hmem => hnodup.2.2 x hmem x List.mem_cons_self rfl
    have hx : 0 ≤ size x := hsize x (by simp [hxs])
    have hrest : 0 ≤ (rest.map size).sum := by
      apply List.sum_nonneg
      intro s hs
      obtain ⟨y, hy, rfl⟩ := List.mem_map.mp hs
      exact hsize y (by simp [hxs, hy])
    have htail := ih (front ++ [x]) (by simp [hxs])
    rw [List.map_append, List.sum_append, List.map_singleton, List.sum_singleton] at htail
    have hoffset : offset size xs x = (front.map size).sum := hxs ▸ offset_middle size hfront
    rw [List.flatMap_cons, htail, hoffset, range_append (by omega) (by omega), List.map_cons, List.sum_cons,
      add_assoc]

theorem flatMap_offset {size : α → ℤ} {xs : List α} (hsize : ∀ x ∈ xs, 0 ≤ size x) (hnodup : xs.Nodup) :
    xs.flatMap (fun x => Int.range (offset size xs x) (offset size xs x + size x)) =
      Int.range 0 (xs.map size).sum := by
  have h := flatMap_offset_from hsize hnodup [] xs rfl
  simpa using h

end Awex.Offsets
