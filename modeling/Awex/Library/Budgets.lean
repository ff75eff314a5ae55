import Awex.Library.Lists
import Mathlib.Algebra.Order.Ring.Int
import Mathlib.Data.List.Perm.Basic

namespace Awex.Budgets

variable {α β : Type}

theorem foldr_max_le_sum (xs : List ℕ) : xs.foldr max 0 ≤ xs.sum := by
  induction xs with
  | nil => exact le_rfl
  | cons x xs ih =>
    rw [List.foldr_cons, List.sum_cons]
    omega

theorem sum_eq_zero_iff_filter (xs : List ℕ) : xs.sum = 0 ↔ (xs.filter (· ≠ 0)).length = 0 := by
  rw [List.length_eq_zero_iff, List.filter_eq_nil_iff, List.sum_eq_zero_iff_forall_eq_nat]
  simp

theorem sum_le_foldr_max_iff (xs : List ℕ) : xs.sum ≤ xs.foldr max 0 ↔ (xs.filter (· ≠ 0)).length ≤ 1 := by
  induction xs with
  | nil => simp
  | cons x xs ih =>
    have hmax := foldr_max_le_sum xs
    have hzero := sum_eq_zero_iff_filter xs
    rw [List.sum_cons, List.foldr_cons]
    by_cases hx : x = 0
    · subst hx
      rw [List.filter_cons_of_neg (by simp), ← ih]
      omega
    · rw [List.filter_cons_of_pos (by simpa using hx), List.length_cons]
      omega

theorem sum_le_max_iff (xs : List ℕ) (budget : ℤ) : (xs.sum : ℤ) ≤ max budget (xs.foldr max 0 : ℕ) ↔
    (xs.sum : ℤ) ≤ budget ∨ (xs.filter (· ≠ 0)).length ≤ 1 := by
  rw [le_max_iff, Int.ofNat_le, sum_le_foldr_max_iff]

theorem flatMap_perm_of_support [DecidableEq α] {ks ks' : List α} {F : α → List β} (hn : ks.Nodup) (hn' : ks'.Nodup)
    (h : ∀ k, F k ≠ [] → k ∈ ks ∧ k ∈ ks') : (ks.flatMap F).Perm (ks'.flatMap F) := by
  have hsupport : ∀ ks : List α, ks.flatMap F = (ks.filter (fun k => ¬ (F k).isEmpty)).flatMap F := by
    intro ks
    induction ks with
    | nil => rfl
    | cons k ks ih =>
      by_cases hk : F k = []
      · rw [List.flatMap_cons, hk, List.nil_append, ih, List.filter_cons_of_neg (by simp [hk])]
      · rw [List.flatMap_cons, ih, List.filter_cons_of_pos (by simp [hk]), List.flatMap_cons]
  rw [hsupport ks, hsupport ks']
  apply List.Perm.flatMap_right
  rw [List.perm_ext_iff_of_nodup (hn.filter _) (hn'.filter _)]
  intro k
  simp only [List.mem_filter, List.isEmpty_iff, decide_eq_true_eq]
  constructor
  · rintro ⟨-, hk⟩
    exact ⟨(h k hk).2, hk⟩
  · rintro ⟨-, hk⟩
    exact ⟨(h k hk).1, hk⟩

end Awex.Budgets
