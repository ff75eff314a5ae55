import Mathlib.Data.Nat.Notation
import Mathlib.Tactic.SplitIfs

namespace Awex.Rounds

/-- How often a party has left position `q`, when it is at position `p` of its round `k`. Position
0 lies between two rounds. -/
def left (k p q : ℕ) : ℕ := k - if p = 0 ∨ q < p then 0 else 1

theorem left_le (k p q : ℕ) : left k p q ≤ k := by
  unfold left
  omega

theorem le_left_succ (k p q : ℕ) : k ≤ left k p q + 1 := by
  unfold left
  split_ifs <;> omega

@[simp] theorem left_between (k q : ℕ) : left k 0 q = k := by
  simp [left]

@[simp] theorem left_zero (k p : ℕ) : left k p 0 = k := by
  unfold left
  split_ifs <;> omega

theorem left_of_lt {k p q : ℕ} (h : q < p) : left k p q = k := by
  simp [left, h]

theorem left_of_le {k p q : ℕ} (hp : p ≠ 0) (h : p ≤ q) : left k p q = k - 1 := by
  simp [left, hp, Nat.not_lt.mpr h]

theorem left_start (k q : ℕ) : left (k + 1) 1 q = left k 0 q + if q = 0 then 1 else 0 := by
  by_cases hq : q = 0 <;> simp [left, hq]

theorem left_move {k p p' q : ℕ} (hk : 0 < k) (hp : p ≠ 0) (hnext : p' = 0 ∨ p < p')
    (hskip : q ≤ p ∨ p' ≠ 0 ∧ p' ≤ q) : left k p' q = left k p q + if q = p then 1 else 0 := by
  unfold left
  split_ifs <;> omega

theorem at_of_left {k p q q' : ℕ} (hskip : p ≤ q' ∨ q ≤ p) (h : left k p q < left k p q') : p = q := by
  unfold left at h
  split_ifs at h <;> omega

theorem between_of_left {k p last : ℕ} (hk : p ≠ 0 → 0 < k) (hlast : p ≤ last)
    (h : left k p 0 < left k p last + 1) : p = 0 := by
  unfold left at h
  split_ifs at h <;> omega

end Awex.Rounds
