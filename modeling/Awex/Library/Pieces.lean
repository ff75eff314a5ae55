import Awex.Library.Chunks

namespace Awex.Chunks

variable {α β : Type}

def chunkSize (n length : ℕ) : ℕ := (length + n - 1) / n

/-- How many chunks there are: fewer than `n` where smaller ones of equal size would do. -/
def pieces (n length : ℕ) : ℕ :=
  if length = 0 then n else (length + chunkSize n length - 1) / chunkSize n length

theorem chunk_eq (n : ℕ) (xs : List α) :
    chunk n xs = (List.range (pieces n xs.length)).map (block xs (chunkSize n xs.length)) := rfl

theorem chunkSize_pos {n length : ℕ} (hn : 0 < n) (hlength : 0 < length) : 0 < chunkSize n length :=
  Nat.div_pos (by omega) hn

theorem pieces_pos {n : ℕ} (hn : 0 < n) (length : ℕ) : 0 < pieces n length := by
  unfold pieces
  split_ifs with hlength
  · exact hn
  · have hsize := chunkSize_pos hn (Nat.pos_of_ne_zero hlength)
    exact Nat.div_pos (by omega) hsize

theorem pieces_eq {n length : ℕ} (hn : 0 < n) (hlength : 0 < length) :
    pieces n length = (length - 1) / chunkSize n length + 1 := by
  have hsize := chunkSize_pos hn hlength
  rw [pieces, if_neg (Nat.ne_of_gt hlength), ← Nat.add_div_right _ hsize]
  congr 1
  omega

theorem forall_div_iff {n : ℕ} (hn : 0 < n) (length : ℕ) {P : ℕ → Prop} (hP : ∀ i j, i ≤ j → P j → P i) :
    (∀ i < length, P (i / chunkSize n length)) ↔ length = 0 ∨ P (pieces n length - 1) := by
  rcases Nat.eq_zero_or_pos length with rfl | hlength
  · simp
  · rw [pieces_eq hn hlength, Nat.add_sub_cancel, or_iff_right (Nat.ne_of_gt hlength)]
    constructor
    · intro h
      exact h (length - 1) (by omega)
    · intro h i hi
      apply hP _ _ _ h
      exact Nat.div_le_div_right (Nat.le_sub_one_of_lt hi)

theorem forall_div_lt_iff {n : ℕ} (hn : 0 < n) (length m : ℕ) :
    (∀ i < length, i / chunkSize n length < m) ↔ length = 0 ∨ pieces n length ≤ m := by
  have hpieces := pieces_pos hn length
  rw [forall_div_iff hn length (fun _ _ hle hlt => Nat.lt_of_le_of_lt hle hlt)]
  omega

theorem exists_div_eq_iff {x m r : ℕ} (hr : 0 < r) : (∃ j < m, j / r = x) ↔ x * r < m := by
  constructor
  · rintro ⟨j, hj, rfl⟩
    exact Nat.lt_of_le_of_lt (Nat.div_mul_le_self j r) hj
  · intro h
    exact ⟨x * r, h, Nat.mul_div_cancel x hr⟩

theorem forall_div_mul_lt_iff {n : ℕ} (hn : 0 < n) (length m r : ℕ) :
    (∀ i < length, i / chunkSize n length * r < m) ↔ length = 0 ∨ (pieces n length - 1) * r < m := by
  apply forall_div_iff hn length (P := fun chunk => chunk * r < m)
  intro i j hle hlt
  exact Nat.lt_of_le_of_lt (Nat.mul_le_mul_right r hle) hlt

theorem mem_block_range {length size i j : ℕ} (hsize : 0 < size) :
    i ∈ block (List.range length) size j ↔ i < length ∧ i / size = j := by
  rw [block, List.range_eq_range', List.drop_range', List.mem_take_iff_getElem]
  simp only [List.getElem_range', List.length_range']
  have hdiv : i / size = j ↔ j * size ≤ i ∧ i < j * size + size := by
    rw [Nat.div_eq_iff hsize]
    omega
  rw [hdiv]
  constructor
  · rintro ⟨k, hk, rfl⟩
    omega
  · intro h
    exact ⟨i - j * size, by omega, by omega⟩

theorem zip_map_range (f : ℕ → α) (g : ℕ → β) (a b : ℕ) :
    ((List.range a).map f).zip ((List.range b).map g) = (List.range (min a b)).map (fun j => (f j, g j)) := by
  apply List.ext_getElem
  · simp
  · intro j hj hj'
    simp

end Awex.Chunks
