import Mathlib.Data.List.Sort
import Mathlib.Data.Set.Function
import Mathlib.Order.Interval.Set.Defs

namespace Awex.Ranking

variable {α β : Type}

/-- `number` is the position in `xs`, for the items of `xs` and for no other. -/
def Numbers (number : α → Option ℕ) (xs : List α) : Prop := ∀ x i, number x = some i ↔ xs[i]? = some x

variable {number : α → Option ℕ} {xs : List α}

theorem Numbers.isSome_iff (h : Numbers number xs) (x : α) : (number x).isSome ↔ x ∈ xs := by
  rw [Option.isSome_iff_exists, List.mem_iff_getElem?]
  exact exists_congr (h x)

theorem Numbers.lt_length (h : Numbers number xs) {x : α} {i : ℕ} (hx : number x = some i) : i < xs.length :=
  (List.getElem?_eq_some_iff.mp ((h x i).mp hx)).1

theorem Numbers.injective (h : Numbers number xs) {x y : α} {i : ℕ} (hx : number x = some i)
    (hy : number y = some i) : x = y :=
  Option.some.inj (((h x i).mp hx).symm.trans ((h y i).mp hy))

theorem Numbers.bijOn (h : Numbers number xs) :
    Set.BijOn (fun x => (number x).getD 0) {x | x ∈ xs} (Set.Iio xs.length) := by
  have hnumber : ∀ x ∈ xs, ∃ i, number x = some i :=
    fun x hx => Option.isSome_iff_exists.mp ((h.isSome_iff x).mpr hx)
  refine ⟨?_, ?_, ?_⟩
  · intro x hx
    obtain ⟨i, hi⟩ := hnumber x hx
    simpa [hi] using h.lt_length hi
  · intro x hx y hy hxy
    obtain ⟨i, hi⟩ := hnumber x hx
    obtain ⟨j, hj⟩ := hnumber y hy
    simp only [hi, hj, Option.getD_some] at hxy
    subst hxy
    exact h.injective hi hj
  · intro i hi
    have hget : xs[i]? = some xs[i] := List.getElem?_eq_getElem hi
    refine ⟨xs[i], List.getElem_mem hi, ?_⟩
    simp [(h xs[i] i).mpr hget]

theorem Numbers.lt_iff [LinearOrder β] (h : Numbers number xs) {key : α → β}
    (hsorted : xs.Pairwise (fun x y => key x < key y)) {x y : α} {i j : ℕ} (hx : number x = some i)
    (hy : number y = some j) : i < j ↔ key x < key y := by
  obtain ⟨hi, hgeti⟩ := List.getElem?_eq_some_iff.mp ((h x i).mp hx)
  obtain ⟨hj, hgetj⟩ := List.getElem?_eq_some_iff.mp ((h y j).mp hy)
  have hpos := List.pairwise_iff_getElem.mp hsorted
  subst hgeti hgetj
  constructor
  · intro hij
    exact hpos i j hi hj hij
  · intro hkey
    by_contra hij
    rcases Nat.lt_or_eq_of_le (Nat.le_of_not_lt hij) with hji | rfl
    · exact lt_asymm hkey (hpos j i hj hi hji)
    · exact lt_irrefl _ hkey

theorem eq_of_key_sorted [LinearOrder β] (key : α → β) {xs ys : List α}
    (hxs : xs.Pairwise (fun x y => key x < key y)) (hys : ys.Pairwise (fun x y => key x < key y))
    (hmem : ∀ x, x ∈ xs ↔ x ∈ ys) : xs = ys := by
  have : Std.Irrefl (fun x y : α => key x < key y) := ⟨fun x => lt_irrefl (key x)⟩
  have : Std.Antisymm (fun x y : α => key x < key y) := ⟨fun x y hxy hyx => absurd hxy (lt_asymm hyx)⟩
  exact hxs.eq_of_mem_iff hys hmem

theorem getElem?_middle_iff {front middle back : List α} {x : α} (hfront : x ∉ front) (hback : x ∉ back) (i : ℕ) :
    (front ++ middle ++ back)[i]? = some x ↔ front.length ≤ i ∧ middle[i - front.length]? = some x := by
  rw [List.append_assoc, List.getElem?_append]
  split_ifs with hi
  · refine iff_of_false ?_ (fun h => absurd h.1 (by omega))
    intro h
    exact hfront (List.mem_of_getElem? h)
  · rw [List.getElem?_append]
    split_ifs with hm
    · exact (and_iff_right (by omega)).symm
    · refine iff_of_false ?_ ?_
      · intro h
        exact hback (List.mem_of_getElem? h)
      · rintro ⟨-, h⟩
        exact hm (List.getElem?_eq_some_iff.mp h).1

end Awex.Ranking
