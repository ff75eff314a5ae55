import Awex.Library.Lists
import Mathlib.Algebra.GroupWithZero.Nat

namespace Awex.Chunks

variable {α : Type}

/-- The `i`-th block of `size` elements. -/
def block (xs : List α) (size i : ℕ) : List α := (xs.drop (i * size)).take size

/-- Blocks of the smallest equal size that needs no more than `n` of them; the last may be shorter.
An empty list gives `n` empty blocks. -/
def chunk (n : ℕ) (xs : List α) : List (List α) :=
  let size := (xs.length + n - 1) / n
  let count := if xs.length = 0 then n else (xs.length + size - 1) / size
  (List.range count).map (block xs size)

def splitSizes : List ℕ → List α → Option (List (List α))
  | [], xs => if xs.length = 0 then some [] else none
  | size :: sizes, xs =>
    if xs.length < size then none else (splitSizes sizes (xs.drop size)).map (xs.take size :: ·)

theorem block_map {β : Type} (f : α → β) (xs : List α) (size i : ℕ) :
    block (xs.map f) size i = (block xs size i).map f := by
  rw [block, block, List.map_take, List.map_drop]

theorem block_slice {xs : List α} {size m i : ℕ} (start : ℕ) (hi : i < m) :
    block ((xs.drop (start * size)).take (m * size)) size i = block xs size (start + i) := by
  have hle : (i + 1) * size ≤ m * size := Nat.mul_le_mul_right size hi
  rw [Nat.succ_mul] at hle
  rw [block, block, List.drop_take, List.take_take, List.drop_drop, Nat.min_eq_left (by omega), Nat.add_mul]

theorem chunk_map {β : Type} (f : α → β) (n : ℕ) (xs : List α) : chunk n (xs.map f) = (chunk n xs).map (List.map f) := by
  unfold chunk
  rw [List.length_map, List.map_map]
  apply List.map_congr_left
  intro i _
  exact block_map f xs _ i

theorem splitSizes_map {β : Type} (f : α → β) (sizes : List ℕ) (xs : List α) :
    splitSizes sizes (xs.map f) = (splitSizes sizes xs).map (List.map (List.map f)) := by
  induction sizes generalizing xs with
  | nil =>
    simp only [splitSizes, List.length_map]
    split_ifs <;> rfl
  | cons size sizes ih =>
    simp only [splitSizes, List.length_map]
    split_ifs
    · rfl
    · rw [← List.map_drop, ih, ← List.map_take, Option.map_map, Option.map_map]
      rfl

theorem splitSizes_sum {sizes : List ℕ} {xs : List α} {parts : List (List α)} (h : splitSizes sizes xs = some parts) :
    xs.length = sizes.sum := by
  induction sizes generalizing xs parts with
  | nil =>
    rw [splitSizes] at h
    split_ifs at h with hlength
    exact hlength
  | cons size sizes ih =>
    rw [splitSizes] at h
    split_ifs at h with hlength
    obtain ⟨rest, hrest, -⟩ := Option.map_eq_some_iff.mp h
    have hsum := ih hrest
    rw [List.length_drop] at hsum
    rw [List.sum_cons]
    omega

theorem splitSizes_three {xs : List α} {a b c : ℕ} (h : xs.length = a + b + c) :
    splitSizes [a, b, c] xs = some [xs.take a, (xs.drop a).take b, (xs.drop (a + b)).take c] := by
  have hlast : ((xs.drop (a + b)).drop c).length = 0 := by
    rw [List.length_drop, List.length_drop]
    omega
  simp only [splitSizes]
  rw [if_neg (by omega), List.drop_drop, if_neg (by rw [List.length_drop]; omega),
    if_neg (by rw [List.length_drop]; omega), if_pos hlast]
  rfl

theorem take_drop_block {xs : List α} {size i a b : ℕ} (h : a + b ≤ size) :
    ((block xs size i).drop a).take b = (xs.drop (i * size + a)).take b := by
  rw [block, List.drop_take, List.take_take, List.drop_drop, Nat.min_eq_left (by omega)]

theorem block_length {xs : List α} {size n i : ℕ} (h : xs.length = n * size) (hi : i < n) :
    (block xs size i).length = size := by
  have : (i + 1) * size ≤ n * size := Nat.mul_le_mul_right size hi
  rw [Nat.succ_mul] at this
  rw [block, List.length_take, List.length_drop]
  omega

theorem chunk_of_mul {xs : List α} {size n : ℕ} (hn : 0 < n) (h : xs.length = n * size) :
    chunk n xs = (List.range n).map (block xs size) := by
  have hsize : (xs.length + n - 1) / n = size := by
    rw [h, Nat.add_sub_assoc hn, Nat.mul_add_div hn, Nat.div_eq_of_lt (by omega), Nat.add_zero]
  unfold chunk
  dsimp only
  rw [hsize]
  rcases Nat.eq_zero_or_pos size with rfl | hpos
  · rw [if_pos (by simpa using h)]
  · have hcount : (xs.length + size - 1) / size = n := by
      rw [h, Nat.mul_comm, Nat.add_sub_assoc hpos, Nat.mul_add_div hpos, Nat.div_eq_of_lt (by omega), Nat.add_zero]
    have hne : xs.length ≠ 0 := by
      have := Nat.mul_pos hn hpos
      omega
    rw [if_neg hne, hcount]

theorem flatten_blocks {xs : List α} {size n : ℕ} (h : xs.length ≤ n * size) :
    ((List.range n).map (block xs size)).flatten = xs := by
  rw [← List.flatMap_def]
  unfold block
  rw [flatMap_chunks, List.take_of_length_le h]

theorem flatten_chunk {n : ℕ} (hn : 0 < n) (xs : List α) : (chunk n xs).flatten = xs := by
  unfold chunk
  apply flatten_blocks
  split_ifs with h
  · omega
  · have hsize : 0 < (xs.length + n - 1) / n := Nat.div_pos (by omega) hn
    have hdiv := Nat.div_add_mod (xs.length + (xs.length + n - 1) / n - 1) ((xs.length + n - 1) / n)
    have hmod := Nat.mod_lt (xs.length + (xs.length + n - 1) / n - 1) hsize
    rw [Nat.mul_comm] at hdiv
    omega

theorem length_chunk_le {n : ℕ} (hn : 0 < n) (xs : List α) : (chunk n xs).length ≤ n := by
  unfold chunk
  dsimp only
  rw [List.length_map, List.length_range]
  split_ifs with h
  · exact Nat.le_refl n
  · have hsize : 0 < (xs.length + n - 1) / n := Nat.div_pos (by omega) hn
    have hcover : xs.length ≤ n * ((xs.length + n - 1) / n) := by
      have hdiv := Nat.div_add_mod (xs.length + n - 1) n
      have hmod := Nat.mod_lt (xs.length + n - 1) hn
      omega
    apply Nat.le_of_lt_succ
    rw [Nat.div_lt_iff_lt_mul hsize, Nat.succ_mul]
    omega

theorem length_flatMap_range {f : ℕ → List α} {k d : ℕ} (hlen : ∀ j < k, (f j).length = d) :
    ((List.range k).flatMap f).length = k * d := by
  induction k with
  | zero => simp
  | succ k ih =>
    have hlast := hlen k (Nat.lt_succ_self k)
    have hrest := ih (fun j hj => hlen j (Nat.lt_succ_of_lt hj))
    rw [List.range_succ, List.flatMap_append, List.length_append, hrest, Nat.succ_mul]
    simp [hlast]

theorem getElem?_flatMap_range {f : ℕ → List α} {k d i : ℕ} (hlen : ∀ j < k, (f j).length = d)
    (hi : i < k * d) : ((List.range k).flatMap f)[i]? = (f (i / d))[i % d]? := by
  induction k with
  | zero => simp at hi
  | succ k ih =>
    have hrest : ∀ j < k, (f j).length = d := fun j hj => hlen j (Nat.lt_succ_of_lt hj)
    have hlength := length_flatMap_range hrest
    rw [List.range_succ, List.flatMap_append, List.flatMap_singleton]
    by_cases hk : i < k * d
    · rw [List.getElem?_append_left (hlength ▸ hk), ih hrest hk]
    · rw [Nat.succ_mul] at hi
      have hdiv : i / d = k := Nat.div_eq_of_lt_le (by omega) (by rw [Nat.succ_mul]; omega)
      have hmod := Nat.div_add_mod i d
      rw [hdiv, Nat.mul_comm] at hmod
      rw [List.getElem?_append_right (by omega), hlength, hdiv]
      congr 1
      omega

theorem block_flatMap {f : ℕ → List α} {m c d i : ℕ} (hlen : ∀ h < m, (f h).length = d) (hi : (i + 1) * c ≤ m) :
    block ((List.range m).flatMap f) (c * d) i = (List.range c).flatMap (fun j => f (i * c + j)) := by
  obtain ⟨rest, hrest⟩ := Nat.exists_eq_add_of_le hi
  have hlength : ∀ s k, s + k ≤ m → ((List.range k).flatMap (fun j => f (s + j))).length = k * d := by
    intro s k hk
    apply length_flatMap_range
    intro j hj
    apply hlen
    omega
  rw [Nat.succ_mul] at hi hrest
  rw [hrest, List.range_add, List.flatMap_append, List.range_add, List.flatMap_append, List.flatMap_map,
    List.flatMap_map, block]
  have hfirst : ((List.range (i * c)).flatMap f).length = i * (c * d) := by
    have := hlength 0 (i * c) (by omega)
    simpa [Nat.mul_assoc] using this
  have hblock : ((List.range c).flatMap (fun j => f (i * c + j))).length = c * d := hlength (i * c) c hi
  rw [List.append_assoc, ← hfirst, List.drop_left, ← hblock, List.take_left]

theorem block_map_flatten {f : ℕ → List α} {m d i : ℕ} (hlen : ∀ h < m, (f h).length = d) (hi : i < m) :
    block ((List.range m).flatMap f) d i = f i := by
  have h := block_flatMap (c := 1) hlen (i := i) (by omega)
  simpa using h

theorem chunk_flatMap {f : ℕ → List α} {m n d : ℕ} (hn : 0 < n) (hdvd : n ∣ m) (hlen : ∀ h < m, (f h).length = d) :
    chunk n ((List.range m).flatMap f) =
      (List.range n).map (fun i => (List.range (m / n)).flatMap (fun j => f (i * (m / n) + j))) := by
  have hmul : n * (m / n) = m := Nat.mul_div_cancel' hdvd
  have hlength : ((List.range m).flatMap f).length = n * (m / n * d) := by
    rw [length_flatMap_range hlen, ← Nat.mul_assoc, hmul]
  rw [chunk_of_mul hn hlength]
  apply List.map_congr_left
  intro i hi
  apply block_flatMap hlen
  calc (i + 1) * (m / n) ≤ n * (m / n) := Nat.mul_le_mul_right _ (List.mem_range.mp hi)
    _ = m := hmul

theorem chunk_pieces {f : ℕ → List α} {m d : ℕ} (hm : 0 < m) (hlen : ∀ h < m, (f h).length = d) :
    chunk m ((List.range m).flatMap f) = (List.range m).map f := by
  rw [chunk_flatMap hm (Nat.dvd_refl m) hlen]
  apply List.map_congr_left
  intro i _
  simp [Nat.div_self hm]

theorem flatMap_replicate {β : Type} (f : ℕ → β) (n r : ℕ) (hr : 0 < r) :
    (List.range n).flatMap (fun i => List.replicate r (f i)) = (List.range (n * r)).map (fun i => f (i / r)) := by
  rw [← range_mul, List.map_flatMap]
  apply List.flatMap_congr
  intro i _
  symm
  rw [List.map_map, List.eq_replicate_iff]
  constructor
  · simp
  · intro b hb
    obtain ⟨j, hj, rfl⟩ := List.mem_map.mp hb
    have hj := List.mem_range.mp hj
    simp only [Function.comp_apply]
    rw [Nat.mul_comm, Nat.mul_add_div hr, Nat.div_eq_of_lt hj, Nat.add_zero]

def interleave (n a b : ℕ) (xs ys : List α) : List α :=
  (List.range n).flatMap (fun i => block xs a i ++ block ys b i)

theorem length_interleave {xs ys : List α} {n a b : ℕ} (hx : xs.length = n * a) (hy : ys.length = n * b) :
    (interleave n a b xs ys).length = xs.length + ys.length := by
  have hpair : ∀ i < n, (block xs a i ++ block ys b i).length = a + b := by
    intro i hi
    rw [List.length_append, block_length hx hi, block_length hy hi]
  rw [interleave, length_flatMap_range hpair, hx, hy, Nat.mul_add]

theorem interleave_one {xs ys : List α} {a b : ℕ} (hx : xs.length = a) (hy : ys.length = b) :
    interleave 1 a b xs ys = xs ++ ys := by
  simp [interleave, block, ← hx, ← hy]

theorem interleave_nil_left (n a : ℕ) {b : ℕ} {ys : List α} (hy : ys.length = n * b) :
    interleave n a b [] ys = ys := by
  have hblock : ∀ i, block ([] : List α) a i = [] := fun i => by simp [block]
  simp only [interleave, hblock, List.nil_append]
  rw [List.flatMap_def, flatten_blocks (Nat.le_of_eq hy)]

theorem interleave_nil_right (n b : ℕ) {a : ℕ} {xs : List α} (hx : xs.length = n * a) :
    interleave n a b xs [] = xs := by
  have hblock : ∀ i, block ([] : List α) b i = [] := fun i => by simp [block]
  simp only [interleave, hblock, List.append_nil]
  rw [List.flatMap_def, flatten_blocks (Nat.le_of_eq hx)]

theorem interleave_replicate_ne {n a b : ℕ} (hn : 2 ≤ n) (ha : 0 < a) (hb : 0 < b) {x y : α} (hxy : x ≠ y) :
    interleave n a b (List.replicate (n * a) x) (List.replicate (n * b) y) ≠
      List.replicate (n * a) x ++ List.replicate (n * b) y := by
  intro heq
  obtain ⟨m, rfl⟩ := Nat.exists_eq_add_of_le hn
  have hcover : a < (2 + m) * a := by
    have := Nat.mul_le_mul_right a (Nat.le_add_right 2 m)
    omega
  have hplain : (List.replicate ((2 + m) * a) x ++ List.replicate ((2 + m) * b) y)[a]? = some x := by
    rw [List.getElem?_append_left (by simpa using hcover), List.getElem?_replicate_of_lt hcover]
  have hfirst : block (List.replicate ((2 + m) * a) x) a 0 = List.replicate a x := by
    simp [block, Nat.le_of_lt hcover]
  have hsecond : block (List.replicate ((2 + m) * b) y) b 0 = List.replicate b y := by
    have := Nat.mul_le_mul_right b (Nat.le_add_right 2 m)
    simp only [block, Nat.zero_mul, List.drop_zero, List.take_replicate, Nat.min_eq_left (by omega : b ≤ (2 + m) * b)]
  have hrange : List.range (2 + m) = 0 :: (List.range (1 + m)).map (· + 1) := by
    rw [Nat.add_comm 2 m, Nat.add_comm 1 m, List.range_succ_eq_map]
  have hpacked : (interleave (2 + m) a b (List.replicate ((2 + m) * a) x) (List.replicate ((2 + m) * b) y))[a]? =
      some y := by
    rw [interleave, hrange, List.flatMap_cons, hfirst, hsecond, List.append_assoc,
      List.getElem?_append_right (by simp), List.length_replicate, Nat.sub_self,
      List.getElem?_append_left (by simpa using hb), List.getElem?_replicate_of_lt hb]
  rw [heq, hplain] at hpacked
  exact hxy (Option.some.inj hpacked)

end Awex.Chunks
