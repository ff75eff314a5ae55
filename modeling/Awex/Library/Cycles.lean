import Mathlib.Algebra.Group.Nat.Even
import Mathlib.Data.Int.GCD
import Mathlib.Data.Nat.ModEq

namespace Awex.Cycles

/-- `pow(a, -1, n)`; it is only asked for coprime arguments. -/
def modInverse (a n : ℕ) : ℕ := ((List.range n).find? (fun x => a * x % n = 1 % n)).getD 0

theorem mul_modInverse {a n : ℕ} (h : Nat.Coprime a n) (hn : n ≠ 0) : a * modInverse a n % n = 1 % n := by
  obtain ⟨x, hlt, hx⟩ := Nat.exists_mul_mod_eq_of_coprime 1 h hn
  cases hfind : (List.range n).find? (fun x => a * x % n = 1 % n) with
  | none =>
    rw [List.find?_eq_none] at hfind
    exact absurd hx (by simpa using hfind x (List.mem_range.mpr hlt))
  | some y =>
    rw [modInverse, hfind, Option.getD_some]
    simpa using List.find?_some hfind

/-- How many steps of `t` lead from zero to `q` modulo `n`. -/
def position (t n q : ℕ) : ℕ := q * modInverse t n % n

section Position

variable {t n : ℕ} (h : Nat.Coprime t n) (hn : n ≠ 0)

include h hn

theorem position_add (q : ℕ) : position t n ((q + t) % n) = (position t n q + 1) % n := by
  rw [position, Nat.mod_mul_mod, Nat.add_mul, Nat.add_mod, mul_modInverse h hn, ← Nat.add_mod_mod, Nat.mod_mod,
    position, Nat.add_mod_mod]

theorem position_eq_zero {q : ℕ} (hq : q < n) : position t n q = 0 ↔ q = 0 := by
  constructor
  · intro hzero
    have hmul : q % n = 0 := by
      calc q % n = q * (t * modInverse t n) % n := by
            rw [Nat.mul_mod, mul_modInverse h hn, ← Nat.mul_mod, Nat.mul_one]
        _ = t * (q * modInverse t n) % n := by rw [Nat.mul_left_comm]
        _ = 0 := by rw [Nat.mul_mod, show q * modInverse t n % n = 0 from hzero, Nat.mul_zero, Nat.zero_mod]
    rwa [Nat.mod_eq_of_lt hq] at hmul
  · rintro rfl
    rw [position, Nat.zero_mul, Nat.zero_mod]

theorem parity_ne_iff (hn2 : 2 ≤ n) (q : ℕ) :
    position t n q % 2 ≠ position t n ((q + t) % n) % 2 ↔ Even n ∨ (q + t) % n ≠ 0 := by
  have hlt : position t n q < n := Nat.mod_lt _ (Nat.pos_of_ne_zero hn)
  have hnext := position_add h hn q
  have hzero := position_eq_zero h hn (Nat.mod_lt (q + t) (Nat.pos_of_ne_zero hn))
  rw [hnext] at hzero
  rw [hnext, ne_eq ((q + t) % n), ← hzero, Nat.even_iff]
  generalize position t n q = p at hlt
  rcases Nat.lt_or_eq_of_le hlt with hlt | hlast
  · rw [Nat.mod_eq_of_lt hlt]
    omega
  · subst hlast
    rw [Nat.mod_self]
    omega

end Position

end Awex.Cycles
