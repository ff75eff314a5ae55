import Awex.Library.Box
import Mathlib.Algebra.GroupWithZero.Nat

namespace Awex.Box

theorem within_iff (offset shape x : List ℕ) : Within offset shape x ↔
    offset.length = x.length ∧ shape.length = x.length ∧ ∀ i < x.length,
      offset.getD i 0 ≤ x.getD i 0 ∧ x.getD i 0 < offset.getD i 0 + shape.getD i 0 := by
  induction offset generalizing shape x with
  | nil => cases shape <;> cases x <;> simp [Within]
  | cons o os ih =>
    cases shape with
    | nil => cases x <;> simp [Within]
    | cons n ns =>
      cases x with
      | nil => simp [Within]
      | cons x xs =>
        simp only [Within, ih, List.length_cons, Nat.add_right_cancel_iff]
        constructor
        · rintro ⟨h0, h1, h2, h3⟩
          refine ⟨h1, h2, fun i hi => ?_⟩
          cases i with
          | zero => simpa using h0
          | succ i => simpa using h3 i (by omega)
        · rintro ⟨h1, h2, h3⟩
          refine ⟨by simpa using h3 0 (by omega), h1, h2, fun i hi => ?_⟩
          simpa using h3 (i + 1) (by omega)

/-- The offset that is `c` along `dim` and zero elsewhere. -/
def axisOffset (n dim c : ℕ) : List ℕ := (List.replicate n 0).set dim c

/-- Boxes laid end to end along `dim`. -/
def slabs (shape : List ℕ) (dim : ℕ) : ℕ → List ℕ → List Box
  | _, [] => []
  | start, n :: ns => ⟨axisOffset shape.length dim start, shape.set dim n⟩ :: slabs shape dim (start + n) ns

theorem getD_set (l : List ℕ) (i j v : ℕ) (hi : i < l.length) :
    (l.set i v).getD j 0 = if i = j then v else l.getD j 0 := by
  simp only [List.getD_eq_getElem?_getD, List.getElem?_set]
  by_cases hij : i = j
  · subst hij
    simp [hi]
  · simp [hij]

/-- `x` is inside the tensor in every dimension but `dim`. -/
def InOthers (shape : List ℕ) (dim : ℕ) (x : List ℕ) : Prop :=
  shape.length = x.length ∧ ∀ i < x.length, i ≠ dim → x.getD i 0 < shape.getD i 0

theorem mem_slab (shape : List ℕ) (dim start n : ℕ) (hd : dim < shape.length) (x : List ℕ) :
    x ∈ (⟨axisOffset shape.length dim start, shape.set dim n⟩ : Box) ↔
      InOthers shape dim x ∧ start ≤ x.getD dim 0 ∧ x.getD dim 0 < start + n := by
  rw [mem_def, within_iff, InOthers]
  simp only [axisOffset, List.length_set, List.length_replicate]
  constructor
  · rintro ⟨h1, -, h3⟩
    refine ⟨⟨h1, fun i hi hne => ?_⟩, ?_⟩
    · have hi' := (h3 i hi).2
      rw [getD_set _ _ _ _ (by simpa using hd), getD_set _ _ _ _ hd] at hi'
      simpa [Ne.symm hne, List.getD_eq_getElem?_getD, h1, hi] using hi'
    · have hd' := h3 dim (h1 ▸ hd)
      rw [getD_set _ _ _ _ (by simpa using hd), getD_set _ _ _ _ hd] at hd'
      simpa using hd'
  · rintro ⟨⟨h1, h2⟩, h3⟩
    refine ⟨h1, h1, fun i hi => ?_⟩
    rw [getD_set _ _ _ _ (by simpa using hd), getD_set _ _ _ _ hd]
    by_cases hid : dim = i
    · subst hid
      simpa using h3
    · simpa [hid, List.getD_eq_getElem?_getD, h1, hi] using h2 i hi (Ne.symm hid)

theorem axisOffset_zero (n dim : ℕ) : axisOffset n dim 0 = List.replicate n 0 := by
  apply List.ext_getElem?
  intro i
  simp only [axisOffset, List.getElem?_set, List.length_replicate, List.getElem?_replicate]
  split_ifs <;> simp_all

theorem mem_slabs (shape : List ℕ) (dim : ℕ) (hd : dim < shape.length) (sizes : List ℕ) (start : ℕ)
    (x : List ℕ) : (∃ b ∈ slabs shape dim start sizes, x ∈ b) ↔
      InOthers shape dim x ∧ start ≤ x.getD dim 0 ∧ x.getD dim 0 < start + sizes.sum := by
  induction sizes generalizing start with
  | nil =>
    simp only [slabs, List.not_mem_nil, false_and, exists_false, List.sum_nil, false_iff]
    rintro ⟨-, h⟩
    omega
  | cons n ns ih =>
    rw [slabs, List.exists_mem_cons_iff, ih, mem_slab shape dim start n hd, ← and_or_left, List.sum_cons]
    refine and_congr_right (fun _ => ?_)
    omega

theorem tiles_slabs (shape : List ℕ) (dim : ℕ) (hd : dim < shape.length) (sizes : List ℕ) :
    Tiles (slabs shape dim 0 sizes) (shape.set dim sizes.sum) := by
  have horigin : ∀ x, x ∈ origin (shape.set dim sizes.sum) ↔
      InOthers shape dim x ∧ 0 ≤ x.getD dim 0 ∧ x.getD dim 0 < 0 + sizes.sum := by
    intro x
    rw [← mem_slab shape dim 0 sizes.sum hd, axisOffset_zero, origin, List.length_set]
  refine ⟨?_, fun b hb x hx => ?_, fun x hx => ?_⟩
  · generalize 0 = start
    clear horigin
    induction sizes generalizing start with
    | nil => exact List.Pairwise.nil
    | cons n ns ih =>
      refine List.pairwise_cons.mpr ⟨fun c hc x hx hxc => ?_, ih (start + n)⟩
      have h1 := (mem_slab shape dim start n hd x).mp hx
      have h2 := (mem_slabs shape dim hd ns (start + n) x).mp ⟨c, hc, hxc⟩
      omega
  · rw [horigin]
    exact (mem_slabs shape dim hd sizes 0 x).mp ⟨b, hb, hx⟩
  · exact (mem_slabs shape dim hd sizes 0 x).mpr ((horigin x).mp hx)

end Awex.Box
