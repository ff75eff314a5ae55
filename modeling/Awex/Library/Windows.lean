import Awex.Library.Strided
import Mathlib.Data.List.Forall2

namespace Awex.Strided

/-- Behind a dimension of which more than one index is taken, every dimension is taken whole. -/
def Consecutive : List ℕ → List ℕ → Prop
  | [], [] => True
  | e :: extents, _ :: shape => (1 < e → extents = shape) ∧ Consecutive extents shape
  | _, _ => False

def decideConsecutive : (extents shape : List ℕ) → Decidable (Consecutive extents shape)
  | [], [] => inferInstanceAs (Decidable True)
  | _ :: extents, _ :: shape =>
    have := decideConsecutive extents shape
    inferInstanceAs (Decidable (_ ∧ _))
  | [], _ :: _ => inferInstanceAs (Decidable False)
  | _ :: _, [] => inferInstanceAs (Decidable False)

instance (extents shape : List ℕ) : Decidable (Consecutive extents shape) := decideConsecutive extents shape

def window (dims : List Dim) (extents : List ℕ) : List Dim := List.zipWith (fun d e => ⟨e, d.stride⟩) dims extents

def Fits (extents shape : List ℕ) : Prop := List.Forall₂ (fun e n => 0 < e ∧ e ≤ n) extents shape

theorem sizes_window (dims : List Dim) (extents : List ℕ) (h : extents.length = dims.length) :
    sizes (window dims extents) = extents := by
  induction dims generalizing extents with
  | nil =>
    obtain rfl := List.length_eq_zero_iff.mp h
    rfl
  | cons d dims ih =>
    obtain ⟨e, extents, rfl⟩ := List.exists_cons_of_length_eq_add_one h
    exact congrArg (e :: ·) (ih extents (by simpa using h))

theorem Fits.prod_bounds {extents shape : List ℕ} (h : Fits extents shape) :
    0 < extents.prod ∧ extents.prod ≤ shape.prod := by
  induction h with
  | nil => exact ⟨Nat.one_pos, le_rfl⟩
  | cons he _ ih =>
    rw [List.prod_cons, List.prod_cons]
    exact ⟨Nat.mul_pos he.1 ih.1, Nat.mul_le_mul he.2 ih.2⟩

theorem Fits.prod_eq_iff {extents shape : List ℕ} (h : Fits extents shape) :
    extents.prod = shape.prod ↔ extents = shape := by
  constructor
  · intro hprod
    induction h with
    | nil => rfl
    | @cons e n extents shape he hrest ih =>
      obtain ⟨hpos, hle⟩ := Fits.prod_bounds hrest
      rw [List.prod_cons, List.prod_cons] at hprod
      have hhead : e = n := by
        apply le_antisymm he.2
        apply Nat.le_of_mul_le_mul_right _ hpos
        rw [hprod]
        exact Nat.mul_le_mul_left n hle
      subst hhead
      rw [ih (Nat.eq_of_mul_eq_mul_left he.1 hprod)]
  · rintro rfl
    rfl

theorem isSome_denseStride_window {dims : List Dim} {extents : List ℕ} {z : ℕ} (hz : denseStride dims = some z)
    (h : Fits extents (sizes dims)) :
    (denseStride (window dims extents)).isSome ↔ Consecutive extents (sizes dims) := by
  induction dims generalizing extents z with
  | nil =>
    cases h
    exact iff_of_true rfl trivial
  | cons d dims ih =>
    rw [sizes, List.map_cons] at h
    cases h with
    | @cons e _ extents _ he hrest =>
      rw [denseStride, Option.bind_eq_some_iff] at hz
      obtain ⟨y, hy, hz⟩ := hz
      have hiff := ih hy hrest
      change ((denseStride (window dims extents)).bind _).isSome ↔
        (1 < e → extents = sizes dims) ∧ Consecutive extents (sizes dims)
      cases hw : denseStride (window dims extents) with
      | none =>
        rw [hw] at hiff
        exact iff_of_false Bool.false_ne_true (fun hc => Bool.false_ne_true (hiff.mpr hc.2))
      | some w =>
        rw [hw] at hiff
        rw [and_iff_left (hiff.mp rfl), Option.bind_some]
        by_cases hone : e = 1
        · subst hone
          exact iff_of_true rfl (fun hlt => absurd hlt (lt_irrefl 1))
        · have hlt : 1 < e := by omega
          have hsize : d.size ≠ 1 := by
            have := he.2
            omega
          rw [if_neg hsize] at hz
          have hstride : d.stride = y := by
            by_contra hne
            rw [if_neg hne] at hz
            cases hz
          have hlength : extents.length = dims.length := hrest.length_eq.trans (List.length_map _)
          have hwprod : w = extents.prod := by
            rw [denseStride_eq_prod _ w hw, sizes_window dims extents hlength]
          have hsame : d.stride = w ↔ extents = sizes dims := by
            rw [hstride, denseStride_eq_prod dims y hy, hwprod, eq_comm]
            exact Fits.prod_eq_iff hrest
          rw [if_neg hone, imp_iff_right hlt, ← hsame]
          split_ifs with heq
          · exact iff_of_true rfl heq
          · exact iff_of_false Bool.false_ne_true heq

/-- The elements of a window of a dense array are consecutive only if the window is whole behind
its first proper dimension. -/
theorem dense_window_iff {dims : List Dim} {extents : List ℕ} (hd : Dense dims) (h : Fits extents (sizes dims)) :
    Dense (window dims extents) ↔ Consecutive extents (sizes dims) := by
  have hbounds := h.prod_bounds
  have hlength : extents.length = dims.length := h.length_eq.trans (List.length_map _)
  obtain ⟨z, hz⟩ := Option.isSome_iff_exists.mp (hd.resolve_left (by omega))
  rw [← isSome_denseStride_window hz h, Dense, sizes_window dims extents hlength]
  exact or_iff_right hbounds.1.ne'

end Awex.Strided
