import Awex.Library.Lists
import Mathlib.Algebra.GroupWithZero.Nat
import Mathlib.Data.List.Sort

namespace Awex.PrefixSums

variable {α : Type}

theorem pairwise_insertionSort (r : α → α → Prop) [DecidableRel r] (htotal : ∀ a b, r a b ∨ r b a)
    (htrans : ∀ a b c, r a b → r b c → r a c) (S : α → α → Prop) (xs : List α) (h : xs.Pairwise S) :
    (xs.insertionSort r).Pairwise (fun a b => r a b ∧ (r b a → S a b)) := by
  induction xs with
  | nil => exact List.Pairwise.nil
  | cons a xs ih =>
    obtain ⟨ha, h⟩ := List.pairwise_cons.mp h
    have ih' := ih h
    have hmem : ∀ b ∈ xs.insertionSort r, S a b :=
      fun b hb => ha b ((List.mem_insertionSort r).mp hb)
    rw [List.insertionSort_cons]
    generalize xs.insertionSort r = ys at ih' hmem
    induction ys with
    | nil => simp
    | cons b ys ihy =>
      obtain ⟨hb, hys⟩ := List.pairwise_cons.mp ih'
      obtain ⟨hab, hmem⟩ := List.forall_mem_cons.mp hmem
      by_cases hr : r a b
      · rw [List.orderedInsert_cons_of_le r ys hr]
        refine List.pairwise_cons.mpr ⟨List.forall_mem_cons.mpr ⟨⟨hr, fun _ => hab⟩, fun c hc => ?_⟩, ih'⟩
        exact ⟨htrans a b c hr (hb c hc).1, fun _ => hmem c hc⟩
      · rw [List.orderedInsert_of_not_le r ys hr]
        refine List.pairwise_cons.mpr ⟨fun c hc => ?_, ihy hys hmem⟩
        rcases (List.mem_orderedInsert r).mp hc with rfl | hc
        · exact ⟨(htotal b c).resolve_right hr, fun h => absurd h hr⟩
        · exact hb c hc

/-- A stable sort of a list in key order swaps only pairs that the sort rank asks it to swap. -/
theorem pairwise_sorted_iff (key rank : α → ℕ) (Z : α → α → Prop) (xs : List α)
    (hs : xs.Pairwise (fun x y => key x < key y)) :
    (xs.insertionSort (fun x y => rank x ≤ rank y)).Pairwise (fun y x => key x < key y → Z x y) ↔
      ∀ x ∈ xs, ∀ y ∈ xs, key x < key y → rank x ≤ rank y ∨ Z x y := by
  have hsorted := pairwise_insertionSort (fun x y => rank x ≤ rank y) (fun _ _ => le_total _ _)
    (fun _ _ _ => le_trans) (fun x y => key x < key y) xs hs
  have hmem : ∀ x, x ∈ xs.insertionSort (fun x y => rank x ≤ rank y) ↔ x ∈ xs :=
    fun x => List.mem_insertionSort _
  simp only [← hmem]
  generalize xs.insertionSort (fun x y => rank x ≤ rank y) = ys at hsorted
  constructor
  · intro h x hx y hy
    refine List.Pairwise.forall_of_forall_of_flip
      (R := fun x y => key x < key y → rank x ≤ rank y ∨ Z x y)
      (fun z _ hlt => absurd hlt (lt_irrefl _)) ?_ ?_ hx hy
    · exact hsorted.imp (fun hab _ => .inl hab.1)
    · exact h.imp (fun hab hlt => .inr (hab hlt))
  · intro h
    refine hsorted.imp_of_mem (fun {y x} hy hx hyx hlt => ?_)
    rcases h x hx y hy hlt with hle | hz
    · have hkey := hyx.2 hle
      omega
    · exact hz

def below (key size : α → ℕ) (xs : List α) (k : ℕ) : ℕ := ((xs.filter (fun x => key x < k)).map size).sum

theorem below_append (key size : α → ℕ) (xs ys : List α) (k : ℕ) :
    below key size (xs ++ ys) k = below key size xs k + below key size ys k := by
  simp [below, List.filter_append]

theorem below_cons (key size : α → ℕ) (x : α) (xs : List α) (k : ℕ) :
    below key size (x :: xs) k = (if key x < k then size x else 0) + below key size xs k := by
  by_cases h : key x < k <;> simp [below, h]

theorem below_mono (key size : α → ℕ) (xs : List α) (k l : ℕ) (h : k ≤ l) :
    below key size xs k ≤ below key size xs l := by
  induction xs with
  | nil => simp [below]
  | cons x xs ih =>
    rw [below_cons, below_cons]
    split_ifs <;> omega

theorem below_eq_sum (key size : α → ℕ) (xs : List α) (k : ℕ)
    (h : ∀ x ∈ xs, key x < k ∨ size x = 0) : below key size xs k = (xs.map size).sum := by
  induction xs with
  | nil => rfl
  | cons x xs ih =>
    obtain ⟨hx, hxs⟩ := List.forall_mem_cons.mp h
    rw [below_cons, ih hxs, List.map_cons, List.sum_cons]
    split_ifs <;> omega

theorem below_eq_zero (key size : α → ℕ) (xs : List α) (k : ℕ)
    (h : ∀ x ∈ xs, ¬ key x < k ∨ size x = 0) : below key size xs k = 0 := by
  induction xs with
  | nil => rfl
  | cons x xs ih =>
    obtain ⟨hx, hxs⟩ := List.forall_mem_cons.mp h
    rw [below_cons, ih hxs]
    split_ifs <;> omega

/-- What stands before each item adds up to the items of smaller key exactly when the list is in
key order, up to items of size zero. -/
theorem prefix_sums_iff (key size : α → ℕ) (xs : List α) (hn : (xs.map key).Nodup) :
    (∀ ys x zs, xs = ys ++ x :: zs → (ys.map size).sum = below key size xs (key x)) ↔
      xs.Pairwise (fun y x => key x < key y → size x = 0 ∧ size y = 0) := by
  constructor
  · intro h
    apply List.pairwise_iff_forall_sublist.mpr
    intro y x hyx hlt
    obtain ⟨front, back, hxs, hy, hx⟩ := List.cons_sublist_iff.mp hyx
    obtain ⟨as, bs, rfl⟩ := List.append_of_mem hy
    obtain ⟨cs, ds, rfl⟩ := List.append_of_mem (List.singleton_sublist.mp hx)
    have hofy := h as y (bs ++ (cs ++ x :: ds)) (by simpa using hxs)
    have hofx := h (as ++ y :: bs ++ cs) x ds (by simpa using hxs)
    have hsplit : ∀ k, below key size xs k = below key size (as ++ y :: bs ++ cs) k +
        ((if key x < k then size x else 0) + below key size ds k) := by
      intro k
      rw [← below_cons, ← below_append]
      congr 1
      simpa using hxs
    have hfront := below_mono key size (as ++ y :: bs ++ cs) _ _ hlt.le
    have hback := below_mono key size ds _ _ hlt.le
    rw [hsplit, if_pos hlt] at hofy
    rw [hsplit, if_neg (lt_irrefl _)] at hofx
    simp only [List.map_append, List.map_cons, List.sum_append, List.sum_cons] at hofx
    omega
  · intro h ys x zs hxs
    subst hxs
    rw [below_append, below_cons, if_neg (lt_irrefl _), Nat.zero_add]
    obtain ⟨-, hxz, hcross⟩ := List.pairwise_append.mp h
    rw [List.map_append, List.map_cons] at hn
    have hdisj := List.nodup_append.mp hn
    rw [below_eq_sum key size ys (key x) (fun y hy => ?_), below_eq_zero key size zs (key x) (fun z hz => ?_)]
    · simp
    · by_cases hlt : key z < key x
      · exact .inr ((List.pairwise_cons.mp hxz).1 z hz hlt).1
      · exact .inl hlt
    · by_cases hlt : key y < key x
      · exact .inl hlt
      · have hne : key y ≠ key x := hdisj.2.2 _ (List.mem_map_of_mem hy) _ (by simp)
        exact .inr (hcross y hy x (by simp) (by omega)).2

end Awex.PrefixSums
