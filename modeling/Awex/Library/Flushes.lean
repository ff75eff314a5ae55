import Awex.Library.Chunks
import Mathlib.Algebra.BigOperators.Group.List.Basic
import Mathlib.Algebra.Order.Ring.Int
import Mathlib.Tactic.Linarith

namespace Awex.Flushes

variable {ε : Type} (size : ε → ℕ) (limit : ℤ)

/-- Entries join a batch one by one; the entry that takes the batch over the limit closes it. -/
def batches : List ε → ℤ → List ε → List (List ε)
  | current, _, [] => if current = [] then [] else [current]
  | current, total, x :: xs =>
    if total + size x > limit then (current ++ [x]) :: batches [] 0 xs
    else batches (current ++ [x]) (total + size x) xs

variable {size limit}

theorem flatten_batches (current : List ε) (total : ℤ) (xs : List ε) :
    (batches size limit current total xs).flatten = current ++ xs := by
  induction xs generalizing current total with
  | nil =>
    rw [batches]
    split_ifs with h
    · rw [h]
      rfl
    · rw [List.flatten_singleton, List.append_nil]
  | cons x xs ih =>
    rw [batches]
    split_ifs
    · rw [List.flatten_cons, ih, List.nil_append, List.append_assoc, List.singleton_append]
    · rw [ih, List.append_assoc, List.singleton_append]

theorem ne_nil_of_mem_batches {current : List ε} {total : ℤ} {xs batch : List ε}
    (h : batch ∈ batches size limit current total xs) : batch ≠ [] := by
  induction xs generalizing current total with
  | nil =>
    rw [batches] at h
    split_ifs at h with hcurrent
    · cases h
    · rwa [List.mem_singleton.mp h]
  | cons x xs ih =>
    rw [batches] at h
    split_ifs at h
    · obtain rfl | h := List.mem_cons.mp h
      · simp
      · exact ih h
    · exact ih h

theorem mem_of_mem_batches {xs batch : List ε} {x : ε} (hbatch : batch ∈ batches size limit [] 0 xs)
    (h : x ∈ batch) : x ∈ xs := by
  have hflatten : x ∈ (batches size limit [] 0 xs).flatten := List.mem_flatten.mpr ⟨batch, hbatch, h⟩
  rwa [flatten_batches, List.nil_append] at hflatten

theorem exists_batch (size : ε → ℕ) (limit : ℤ) {xs : List ε} {x : ε} (h : x ∈ xs) :
    ∃ batch ∈ batches size limit [] 0 xs, x ∈ batch := by
  apply List.mem_flatten.mp
  rwa [flatten_batches, List.nil_append]

variable {s : ℕ}

theorem batches_of_lt (hlimit : limit < s) {xs : List ε} (hsize : ∀ x ∈ xs, size x = s) :
    batches size limit [] 0 xs = xs.map (fun x => [x]) := by
  induction xs with
  | nil => rfl
  | cons x xs ih =>
    obtain ⟨hx, hxs⟩ := List.forall_mem_cons.mp hsize
    rw [batches, if_pos (by omega), ih hxs]
    rfl

theorem batches_of_le {current : List ε} {total : ℤ} {xs : List ε} (hsize : ∀ x ∈ xs, size x = s)
    (hle : total + (xs.length * s : ℕ) ≤ limit) :
    batches size limit current total xs = if current ++ xs = [] then [] else [current ++ xs] := by
  induction xs generalizing current total with
  | nil => rw [batches, List.append_nil]
  | cons x xs ih =>
    obtain ⟨hx, hxs⟩ := List.forall_mem_cons.mp hsize
    rw [List.length_cons, Nat.succ_mul] at hle
    rw [batches, if_neg (by omega), ih hxs (by omega), List.append_assoc, List.singleton_append]

theorem exists_batch_over (hlimit : (s : ℤ) ≤ limit) (current : List ε) (total : ℤ) {xs : List ε}
    (hsize : ∀ x ∈ current ++ xs, size x = s) (htotal : total = (current.length * s : ℕ)) (hle : total ≤ limit)
    (hover : limit < total + (xs.length * s : ℕ)) :
    ∃ batch ∈ batches size limit current total xs, 1 < batch.length ∧ limit < ((batch.map size).sum : ℕ) := by
  -- a batch that was below the limit before its last entry has a second entry when one entry fits
  induction xs generalizing current total with
  | nil =>
    rw [List.length_nil, Nat.zero_mul] at hover
    omega
  | cons x xs ih =>
    have hx : size x = s := hsize x (by simp)
    have hnext : total + size x = ((current ++ [x]).length * s : ℕ) := by
      rw [List.length_append, List.length_singleton, Nat.succ_mul, htotal, hx]
      omega
    have hbatch : ∀ y ∈ current ++ [x], size y = s := by
      intro y hy
      apply hsize
      rw [List.mem_append, List.mem_singleton] at hy
      rw [List.mem_append, List.mem_cons]
      tauto
    rw [batches]
    split_ifs with hflush
    · refine ⟨current ++ [x], List.mem_cons_self, ?_, ?_⟩
      · rw [List.length_append, List.length_singleton]
        apply Nat.lt_add_of_pos_left
        apply List.length_pos_iff.mpr
        rintro rfl
        rw [htotal, List.length_nil, Nat.zero_mul] at hflush
        omega
      · rw [List.map_eq_replicate_iff.mpr hbatch, List.sum_replicate_nat]
        omega
    · apply ih (current ++ [x]) (total + size x) _ hnext (by omega)
      · rw [List.length_cons, Nat.succ_mul] at hover
        omega
      · rwa [List.append_assoc, List.singleton_append]

theorem batches_bounded_iff {xs : List ε} (hsize : ∀ x ∈ xs, size x = s) :
    (∀ batch ∈ batches size limit [] 0 xs, (((batch.map size).sum : ℕ) : ℤ) ≤ limit ∨ batch.length = 1) ↔
      limit < s ∨ ((xs.length * s : ℕ) : ℤ) ≤ limit := by
  constructor
  · intro h
    by_contra hcontra
    obtain ⟨hlimit, hover⟩ := not_or.mp hcontra
    obtain ⟨batch, hbatch, hlength, hsum⟩ := exists_batch_over (le_of_not_gt hlimit) [] 0
      (by simpa using hsize) (by simp) (by omega) (by omega)
    have := h batch hbatch
    omega
  · rintro (hlimit | hle) batch hbatch
    · rw [batches_of_lt hlimit hsize] at hbatch
      obtain ⟨x, -, rfl⟩ := List.mem_map.mp hbatch
      exact .inr rfl
    · rw [batches_of_le hsize (by omega), List.nil_append] at hbatch
      split_ifs at hbatch
      · cases hbatch
      · rw [List.mem_singleton.mp hbatch, List.map_eq_replicate_iff.mpr hsize, List.sum_replicate_nat]
        exact .inl hle

/-- How many entries of size `s` it takes to go over the limit. -/
def batchLength (limit : ℤ) (s : ℕ) : ℕ := (limit / s).toNat + 1

theorem over_iff (hs : 0 < s) (k : ℕ) : limit < ((k + 1) * s : ℕ) ↔ batchLength limit s ≤ k + 1 := by
  have hs' : (0 : ℤ) < s := by exact_mod_cast hs
  have hdiv : limit < ((k + 1 : ℕ) : ℤ) * s ↔ limit / s < ((k + 1 : ℕ) : ℤ) := (Int.ediv_lt_iff_lt_mul hs').symm
  rw [Nat.cast_mul, hdiv, batchLength]
  omega

theorem batches_of_length_lt (hs : 0 < s) {current xs : List ε} (hsize : ∀ x ∈ xs, size x = s)
    (hlength : current.length < batchLength limit s) (hne : current ++ xs ≠ []) :
    batches size limit current (current.length * s : ℕ) xs =
      (current ++ xs.take (batchLength limit s - current.length)) ::
        batches size limit [] 0 (xs.drop (batchLength limit s - current.length)) := by
  induction xs generalizing current with
  | nil =>
    rw [List.append_nil] at hne
    rw [batches, if_neg hne, List.take_nil, List.drop_nil, batches, if_pos rfl, List.append_nil]
  | cons x xs ih =>
    obtain ⟨hx, hxs⟩ := List.forall_mem_cons.mp hsize
    have htotal : ((current.length * s : ℕ) : ℤ) + size x = ((current.length + 1) * s : ℕ) := by
      rw [hx, Nat.succ_mul, Nat.cast_add]
    rw [batches, htotal]
    by_cases hover : limit < ((current.length + 1) * s : ℕ)
    · have hlast : batchLength limit s - current.length = 1 := by
        have := (over_iff hs current.length).mp hover
        omega
      rw [if_pos hover, hlast]
      rfl
    · have hmore : current.length + 1 < batchLength limit s := by
        have := mt (over_iff hs current.length).mpr hover
        omega
      have hsub : batchLength limit s - current.length = batchLength limit s - (current.length + 1) + 1 := by omega
      have hlength' : (current ++ [x]).length < batchLength limit s := by simpa using hmore
      have hrest := ih hxs hlength' (by simp)
      rw [List.length_append, List.length_singleton] at hrest
      rw [if_neg hover, hrest, hsub, List.take_succ_cons, List.drop_succ_cons, List.append_assoc,
        List.singleton_append]

theorem mem_batches_iff (hs : 0 < s) {xs : List ε} (hsize : ∀ x ∈ xs, size x = s) {batch : List ε} :
    batch ∈ batches size limit [] 0 xs ↔
      batch ≠ [] ∧ ∃ i, batch = Chunks.block xs (batchLength limit s) i := by
  -- entries of one size make blocks of equal length
  induction h : xs.length using Nat.strong_induction_on generalizing xs with
  | h n ih =>
    by_cases hxs : xs = []
    · subst hxs
      rw [batches, if_pos rfl]
      simp [Chunks.block]
    · have hpos : 0 < batchLength limit s := Nat.succ_pos _
      have hlt : (xs.drop (batchLength limit s)).length < n := by
        have := List.length_pos_iff.mpr hxs
        rw [List.length_drop]
        omega
      have hfirst : batches size limit [] (([] : List ε).length * s : ℕ) xs = _ := batches_of_length_lt hs hsize hpos hxs
      simp only [List.length_nil, Nat.zero_mul, Nat.cast_zero, List.nil_append, Nat.sub_zero] at hfirst
      have hblock : ∀ i, Chunks.block (xs.drop (batchLength limit s)) (batchLength limit s) i =
          Chunks.block xs (batchLength limit s) (i + 1) := by
        intro i
        rw [Chunks.block, Chunks.block, List.drop_drop, Nat.succ_mul, Nat.add_comm]
      have hzero : Chunks.block xs (batchLength limit s) 0 = xs.take (batchLength limit s) := by
        rw [Chunks.block, Nat.zero_mul, List.drop_zero]
      rw [hfirst, List.mem_cons, ih _ hlt (fun x hx => hsize x (List.mem_of_mem_drop hx)) rfl]
      simp only [hblock]
      constructor
      · rintro (rfl | ⟨hne, i, hi⟩)
        · refine ⟨?_, 0, hzero.symm⟩
          rw [Ne, List.take_eq_nil_iff, not_or]
          exact ⟨hpos.ne', hxs⟩
        · exact ⟨hne, i + 1, hi⟩
      · rintro ⟨hne, i, rfl⟩
        cases i with
        | zero => exact .inl hzero
        | succ i => exact .inr ⟨hne, i, rfl⟩

end Awex.Flushes
