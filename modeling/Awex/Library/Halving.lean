import Mathlib.Algebra.Group.Nat.Defs
import Mathlib.Data.List.Basic
import Mathlib.Data.Nat.Log

namespace Awex.Halving

/-- The size of a part once `n` items have been halved `i` times, rounding down. -/
def size (n i : ℕ) : ℕ := n / 2 ^ i

/-- `a` and `b` are in one part of size `size n i`, and in different halves of it. -/
def Separates (n i a b : ℕ) : Prop :=
  a / size n i = b / size n i ∧ (a % size n i < size n (i + 1) ↔ ¬ b % size n i < size n (i + 1))

instance (n i a b : ℕ) : Decidable (Separates n i a b) := inferInstanceAs (Decidable (_ ∧ _))

theorem size_add (n i j : ℕ) : size n (i + j) = size n i / 2 ^ j := by
  rw [size, size, Nat.div_div_eq_div_mul, Nat.pow_add]

theorem size_pos (n i : ℕ) (h : 2 ^ i ≤ n) : 0 < size n i := Nat.div_pos h (Nat.two_pow_pos i)

theorem size_anti (n i j : ℕ) (h : i ≤ j) : size n j ≤ size n i := by
  obtain ⟨d, rfl⟩ := Nat.exists_eq_add_of_le h
  rw [size_add]
  exact Nat.div_le_self _ _

theorem size_two_pow (k i : ℕ) (h : i ≤ k) : size (2 ^ k) i = 2 ^ (k - i) :=
  Nat.pow_div h (by decide)

theorem Separates.symm {n i a b : ℕ} (h : Separates n i a b) : Separates n i b a :=
  ⟨h.1.symm, by have := h.2; tauto⟩

theorem mod_two_mul_lt (a h : ℕ) (hh : 0 < h) : a % (h * 2) < h ↔ a / h % 2 = 0 := by
  have hlt := Nat.mod_lt a hh
  rw [Nat.mod_mul]
  rcases Nat.mod_two_eq_zero_or_one (a / h) with hz | hz <;> rw [hz] <;> omega

theorem separates_two_mul (n i a b h : ℕ) (hh : 0 < h) (hn : size n i = h * 2) :
    Separates n i a b ↔ a / (h * 2) = b / (h * 2) ∧ a / h ≠ b / h := by
  have hhalf : size n (i + 1) = h := by
    rw [size_add, hn]
    simp
  rw [Separates, hhalf, hn, mod_two_mul_lt a h hh, mod_two_mul_lt b h hh]
  refine and_congr_right (fun hab => ?_)
  rw [← Nat.div_div_eq_div_mul, ← Nat.div_div_eq_div_mul] at hab
  omega

theorem exists_step (P : ℕ → Prop) (k : ℕ) (h0 : ¬ P 0) (hk : P k) : ∃ i < k, ¬ P i ∧ P (i + 1) := by
  induction k with
  | zero => exact absurd hk h0
  | succ k ih =>
    by_cases hp : P k
    · obtain ⟨i, hi, h⟩ := ih hp
      exact ⟨i, Nat.lt_succ_of_lt hi, h⟩
    · exact ⟨k, Nat.lt_succ_self k, hp, hk⟩

theorem div_pow_eq_mono (a b i j : ℕ) (h : i ≤ j) (hab : a / 2 ^ i = b / 2 ^ i) :
    a / 2 ^ j = b / 2 ^ j := by
  obtain ⟨d, rfl⟩ := Nat.exists_eq_add_of_le h
  rw [Nat.pow_add, ← Nat.div_div_eq_div_mul, ← Nat.div_div_eq_div_mul, hab]

theorem separates_two_pow (k i a b : ℕ) (hi : i < k) :
    Separates (2 ^ k) i a b ↔
      a / 2 ^ (k - i) = b / 2 ^ (k - i) ∧ a / 2 ^ (k - 1 - i) ≠ b / 2 ^ (k - 1 - i) := by
  have hpow : 2 ^ (k - i) = 2 ^ (k - 1 - i) * 2 := by
    rw [← Nat.pow_succ]
    congr 1
    omega
  have hsize : size (2 ^ k) i = 2 ^ (k - 1 - i) * 2 := (size_two_pow k i hi.le).trans hpow
  rw [separates_two_mul _ _ _ _ _ (Nat.two_pow_pos _) hsize, hpow]

/-- Halving a power of two separates every pair exactly once. -/
theorem exists_unique_separates (k a b : ℕ) (ha : a < 2 ^ k) (hb : b < 2 ^ k) (hab : a ≠ b) :
    ∃ i < k, ∀ j < k, Separates (2 ^ k) j a b ↔ j = i := by
  obtain ⟨m, hm, hne, heq⟩ := exists_step (fun j => a / 2 ^ j = b / 2 ^ j) k (by simpa using hab)
    (by rw [Nat.div_eq_of_lt ha, Nat.div_eq_of_lt hb])
  refine ⟨k - 1 - m, by omega, fun j hj => ?_⟩
  rw [separates_two_pow k j a b hj]
  constructor
  · rintro ⟨hj1, hj2⟩
    have h1 : ¬ m + 1 ≤ k - 1 - j := fun h => hj2 (div_pow_eq_mono a b _ _ h heq)
    have h2 : ¬ k - j ≤ m := fun h => hne (div_pow_eq_mono a b _ _ h hj1)
    omega
  · rintro rfl
    have h1 : k - (k - 1 - m) = m + 1 := by omega
    have h2 : k - 1 - (k - 1 - m) = m := by omega
    rw [h1, h2]
    exact ⟨heq, hne⟩

theorem size_log (n : ℕ) (hn : n ≠ 0) : size n (Nat.log 2 n) = 1 := by
  have h1 := Nat.pow_log_le_self 2 hn
  have h2 := Nat.lt_pow_succ_log_self (b := 2) (by decide) n
  rw [Nat.pow_succ] at h2
  exact Nat.div_eq_of_lt_le (by omega) (by omega)

theorem div_succ_ne (a d : ℕ) (hd : d ∣ a + 1) (hpos : 0 < d) : a / d ≠ (a + 1) / d := by
  obtain ⟨q, hq⟩ := hd
  rw [hq, Nat.mul_div_cancel_left q hpos]
  have hlt : a / d < q := Nat.div_lt_of_lt_mul (by omega)
  omega

/-- Otherwise some part is odd once all later ones are powers of two, and the last two items of
that part share a half until they are in different parts. -/
theorem exists_not_separates (n : ℕ) (hn : n ≠ 0) (hpow : n ≠ 2 ^ Nat.log 2 n) :
    ∃ a b, a < n ∧ b < n ∧ a ≠ b ∧ ∀ i < Nat.log 2 n, ¬ Separates n i a b := by
  obtain ⟨i, hi, hne, heq⟩ := exists_step (fun i => size n i = 2 ^ (Nat.log 2 n - i)) (Nat.log 2 n)
    (by simpa [size] using hpow) (by simpa using size_log n hn)
  obtain ⟨m, hm⟩ : ∃ m, Nat.log 2 n - i = m + 1 := ⟨Nat.log 2 n - i - 1, by omega⟩
  have hm' : Nat.log 2 n - (i + 1) = m := by omega
  simp only [hm, hm'] at hne heq
  have hodd : size n i = 2 ^ m * 2 + 1 := by
    rw [size_add] at heq
    rw [Nat.pow_succ] at hne
    omega
  have hpos := Nat.two_pow_pos m
  have hle := Nat.div_le_self n (2 ^ i)
  rw [← size, hodd] at hle
  refine ⟨2 ^ m * 2 - 1, 2 ^ m * 2, by omega, by omega, by omega, fun j hj => ?_⟩
  rintro ⟨hpart, hhalf⟩
  rcases Nat.lt_trichotomy j i with hji | rfl | hji
  · have h1 := size_anti n (j + 1) i hji
    have h2 := size_anti n j (j + 1) (Nat.le_succ j)
    rw [Nat.mod_eq_of_lt (by omega), Nat.mod_eq_of_lt (by omega)] at hhalf
    omega
  · rw [hodd, heq, Nat.mod_eq_of_lt (by omega), Nat.mod_eq_of_lt (by omega)] at hhalf
    omega
  · obtain ⟨d, rfl⟩ := Nat.exists_eq_add_of_le (show i + 1 ≤ j from hji)
    have hd : d ≤ m := by omega
    rw [size_add, heq, Nat.pow_div hd (by decide)] at hpart
    have hdvd : 2 ^ (m - d) ∣ 2 ^ m * 2 - 1 + 1 := by
      rw [Nat.sub_add_cancel (by omega)]
      exact Nat.dvd_mul_right_of_dvd (Nat.pow_dvd_pow 2 (Nat.sub_le m d)) 2
    have hdiv := div_succ_ne _ _ hdvd (Nat.two_pow_pos _)
    rw [Nat.sub_add_cancel (by omega)] at hdiv
    exact hdiv hpart

end Awex.Halving
