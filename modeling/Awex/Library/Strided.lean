import Awex.Library.Box
import Awex.Library.Lists
import Mathlib.Algebra.BigOperators.Group.List.Basic
import Mathlib.Algebra.Order.BigOperators.Group.List

namespace Awex

structure Dim where
  size : ℕ
  stride : ℕ
  deriving DecidableEq, Repr

namespace Strided

def sizes (dims : List Dim) : List ℕ := dims.map (·.size)

def distance : List Dim → List ℕ → ℕ
  | d :: dims, i :: x => i * d.stride + distance dims x
  | _, _ => 0

def denseStride : List Dim → Option ℕ
  | [] => some 1
  | d :: dims =>
    (denseStride dims).bind (fun z =>
      if d.size = 1 then some z else if d.stride = z then some (d.size * z) else none)

/-- The elements lie one after another, last dimension fastest; a dimension of one element may
have any stride, and an empty tensor any strides. -/
def Dense (dims : List Dim) : Prop := (sizes dims).prod = 0 ∨ (denseStride dims).isSome

instance (dims : List Dim) : Decidable (Dense dims) := inferInstanceAs (Decidable (_ ∨ _))

def rowMajor : List ℕ → List Dim
  | [] => []
  | n :: ns => ⟨n, ns.prod⟩ :: rowMajor ns

theorem sizes_rowMajor (shape : List ℕ) : sizes (rowMajor shape) = shape := by
  induction shape with
  | nil => rfl
  | cons n ns ih => simpa [rowMajor, sizes] using ih

theorem denseStride_rowMajor (shape : List ℕ) : denseStride (rowMajor shape) = some shape.prod := by
  induction shape with
  | nil => rfl
  | cons n ns ih =>
    simp only [rowMajor, denseStride, ih, Option.bind_some, ↓reduceIte, List.prod_cons]
    split_ifs with hn
    · rw [hn, one_mul]
    · rfl

theorem dense_rowMajor (shape : List ℕ) : Dense (rowMajor shape) := by
  right
  rw [denseStride_rowMajor]
  rfl

theorem denseStride_eq_prod (dims : List Dim) (z : ℕ) (h : denseStride dims = some z) :
    z = (sizes dims).prod := by
  induction dims generalizing z with
  | nil => exact (Option.some.inj h).symm
  | cons d dims ih =>
    rw [denseStride, Option.bind_eq_some_iff] at h
    obtain ⟨y, hy, h⟩ := h
    have hprod : (sizes (d :: dims)).prod = d.size * (sizes dims).prod := by
      simp only [sizes, List.map_cons, List.prod_cons]
    rw [hprod, ← ih y hy]
    split_ifs at h with hone hstride
    · rw [← Option.some.inj h, hone, one_mul]
    · exact (Option.some.inj h).symm

theorem distances_of_denseStride (dims : List Dim) (z : ℕ) (h : denseStride dims = some z) :
    (Box.indices (sizes dims)).map (distance dims) = List.range z := by
  induction dims generalizing z with
  | nil => simp only [← Option.some.inj h]; rfl
  | cons d dims ih =>
    rw [denseStride, Option.bind_eq_some_iff] at h
    obtain ⟨y, hy, h⟩ := h
    have hrow : ∀ i, ((Box.indices (sizes dims)).map (i :: ·)).map (distance (d :: dims)) =
        (List.range y).map (i * d.stride + ·) := by
      intro i
      rw [List.map_map, ← ih y hy, List.map_map]
      rfl
    simp only [sizes, List.map_cons, Box.indices, List.map_flatMap]
    simp only [sizes] at hrow
    simp only [hrow]
    split_ifs at h with hone hstride
    · obtain rfl := Option.some.inj h
      simp [hone]
    · obtain rfl := Option.some.inj h
      rw [hstride, range_mul]

theorem indices_eq_nil (shape : List ℕ) (h : shape.prod = 0) : Box.indices shape = [] := by
  induction shape with
  | nil => simp at h
  | cons n ns ih =>
    rw [List.prod_cons, Nat.mul_eq_zero] at h
    rcases h with rfl | h
    · rfl
    · simp [Box.indices, ih h]

theorem distances_of_dense (dims : List Dim) (h : Dense dims) :
    (Box.indices (sizes dims)).map (distance dims) = List.range (sizes dims).prod := by
  rcases h with h | h
  · rw [indices_eq_nil _ h, h]
    rfl
  · obtain ⟨z, hz⟩ := Option.isSome_iff_exists.mp h
    rw [distances_of_denseStride dims z hz, denseStride_eq_prod dims z hz]

theorem length_indices (shape : List ℕ) : (Box.indices shape).length = shape.prod := by
  induction shape with
  | nil => rfl
  | cons n ns ih => simp [Box.indices, ih]

end Strided

end Awex
