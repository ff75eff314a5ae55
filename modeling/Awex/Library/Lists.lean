import Mathlib.Data.List.Basic
import Mathlib.Data.List.Count
import Mathlib.Data.List.Forall2
import Mathlib.Data.List.Nodup

namespace Awex

variable {α β γ : Type}

theorem exists_of_forall₂_mem {R : α → β → Prop} {xs : List α} {ys : List β}
    (h : List.Forall₂ R xs ys) {x : α} (hx : x ∈ xs) : ∃ y ∈ ys, R x y := by
  induction h with
  | nil => simp at hx
  | @cons a b as bs hab _ ih =>
    rcases List.mem_cons.mp hx with rfl | hx
    · exact ⟨b, List.mem_cons_self, hab⟩
    · obtain ⟨y, hy, hxy⟩ := ih hx
      exact ⟨y, List.mem_cons_of_mem _ hy, hxy⟩

theorem exists_of_forall₂_mem_right {R : α → β → Prop} {xs : List α} {ys : List β}
    (h : List.Forall₂ R xs ys) {y : β} (hy : y ∈ ys) : ∃ x ∈ xs, R x y :=
  exists_of_forall₂_mem h.flip hy

theorem map_eq_of_forall₂_mem {R : α → β → Prop} {f : α → γ} {g : β → γ} {xs : List α} {ys : List β}
    (h : List.Forall₂ R xs ys) (hfg : ∀ x ∈ xs, ∀ y, R x y → f x = g y) : xs.map f = ys.map g := by
  induction h with
  | nil => rfl
  | cons hxy _ ih =>
    obtain ⟨hx, hxs⟩ := List.forall_mem_cons.mp hfg
    rw [List.map_cons, List.map_cons, hx _ hxy, ih hxs]

theorem map_eq_of_forall₂ {f : α → γ} {g : β → γ} {xs : List α} {ys : List β}
    (h : List.Forall₂ (fun x y => f x = g y) xs ys) : xs.map f = ys.map g :=
  map_eq_of_forall₂_mem h (fun _ _ _ hxy => hxy)

theorem forall₂_zipWith_left {R : α → γ → Prop} {f : α → β → γ} (h : ∀ a b, R a (f a b))
    (as : List α) (bs : List β) (hl : as.length ≤ bs.length) : List.Forall₂ R as (List.zipWith f as bs) := by
  induction as generalizing bs with
  | nil => simp
  | cons a as ih =>
    cases bs with
    | nil => simp at hl
    | cons b bs => exact .cons (h a b) (ih bs (by simpa using hl))

theorem forall₂_zipWith_right {R : β → γ → Prop} {f : α → β → γ} (h : ∀ a b, R b (f a b))
    (as : List α) (bs : List β) (hl : bs.length ≤ as.length) : List.Forall₂ R bs (List.zipWith f as bs) := by
  rw [List.zipWith_comm]
  exact forall₂_zipWith_left (fun b a => h a b) bs as hl

theorem forall₂_filter {R : α → β → Prop} {xs : List α} {ys : List β} (p : α → Prop) (q : β → Prop)
    [DecidablePred p] [DecidablePred q] (hpq : ∀ x y, R x y → (p x ↔ q y)) (h : List.Forall₂ R xs ys) :
    List.Forall₂ R (xs.filter (p ·)) (ys.filter (q ·)) := by
  induction h with
  | nil => exact .nil
  | @cons x y _ _ hxy _ ih =>
    by_cases hx : p x
    · simpa [hx, (hpq x y hxy).mp hx] using ⟨hxy, ih⟩
    · simpa [hx, (hpq x y hxy).not.mp hx] using ih

theorem zipWith_add_sub (os ns : List ℕ) (h : os.length = ns.length) :
    List.zipWith (· - ·) (List.zipWith (· + ·) os ns) os = ns := by
  induction os generalizing ns with
  | nil => exact (List.length_eq_zero_iff.mp h.symm).symm
  | cons o os ih =>
    obtain ⟨n, ns, rfl⟩ := List.exists_cons_of_length_eq_add_one h.symm
    simp [ih ns (by simpa using h)]

theorem zipWith_add_sub_cancel (os start : List ℕ) (h : List.Forall₂ (· ≤ ·) os start) :
    List.zipWith (· + ·) os (List.zipWith (· - ·) start os) = start := by
  induction h with
  | nil => rfl
  | cons ho _ ih => simp only [List.zipWith_cons_cons, ih, List.cons.injEq, and_true]; omega

theorem countP_of_disjoint (bs : List α) (p : α → Prop) [DecidablePred p]
    (hd : bs.Pairwise (fun b c => p b → ¬ p c)) (h : ∃ b ∈ bs, p b) : bs.countP (p ·) = 1 := by
  induction bs with
  | nil => simp at h
  | cons b bs ih =>
    obtain ⟨hb, hd⟩ := List.pairwise_cons.mp hd
    by_cases hp : p b
    · have hrest : bs.countP (p ·) = 0 := by
        rw [List.countP_eq_zero]
        intro c hc
        simpa using hb c hc hp
      simp [hp, hrest]
    · have hrest := ih hd (by simpa [hp] using h)
      simp [hp, hrest]

theorem countP_flatMap_filter (xs : List α) (row : α → List β) (P : β → Prop)
    [DecidablePred P] (p : α → Prop) [DecidablePred p]
    (h : ∀ x ∈ xs, ¬ p x → (row x).countP (P ·) = 0) :
    (xs.flatMap row).countP (P ·) = ((xs.filter (p ·)).flatMap row).countP (P ·) := by
  induction xs with
  | nil => rfl
  | cons x xs ih =>
    obtain ⟨hx, hxs⟩ := List.forall_mem_cons.mp h
    have ih' := ih hxs
    by_cases hp : p x
    · simp [hp, ih']
    · simp [hp, ih', hx hp]

theorem filter_eq_singleton [DecidableEq β] (xs : List α) (f : α → β)
    (hn : (xs.map f).Nodup) (x : α) (hx : x ∈ xs) : xs.filter (fun y => f y = f x) = [x] := by
  induction xs with
  | nil => simp at hx
  | cons y ys ih =>
    obtain ⟨hy, hn⟩ := List.nodup_cons.mp hn
    rcases List.mem_cons.mp hx with rfl | hx
    · have hrest : ys.filter (fun z => f z = f x) = [] := by
        apply List.filter_eq_nil_iff.mpr
        intro z hz
        simp only [decide_eq_true_eq]
        intro hzx
        exact hy (List.mem_map.mpr ⟨z, hz, hzx⟩)
      simp [hrest]
    · have hne : f y ≠ f x := fun hyx => hy (List.mem_map.mpr ⟨x, hx, hyx.symm⟩)
      simp [hne, ih hn hx]

theorem le_foldr_max {xs : List ℕ} {x : ℕ} (hx : x ∈ xs) : x ≤ xs.foldr max 0 := by
  induction xs with
  | nil => simp at hx
  | cons y ys ih =>
    rcases List.mem_cons.mp hx with rfl | hx
    · exact Nat.le_max_left _ _
    · exact Nat.le_trans (ih hx) (Nat.le_max_right _ _)

theorem flatMap_chunks (xs : List α) (step n : ℕ) :
    (List.range n).flatMap (fun k => (xs.drop (k * step)).take step) = xs.take (n * step) := by
  induction n with
  | zero => simp
  | succ n ih => rw [List.range_succ, List.flatMap_append, ih, List.flatMap_singleton, Nat.succ_mul, List.take_add]

theorem filterMap_range_getElem? (f : α → β) (xs : List α) :
    (List.range xs.length).filterMap (fun i => (xs[i]?).map f) = xs.map f := by
  induction xs with
  | nil => rfl
  | cons x xs ih =>
    rw [List.length_cons, List.range_succ_eq_map, List.filterMap_cons, List.filterMap_map, List.map_cons, ← ih]
    rfl

theorem range_mul (n w : ℕ) :
    (List.range n).flatMap (fun e => (List.range w).map (fun g => e * w + g)) = List.range (n * w) := by
  induction n with
  | zero => simp
  | succ n ih =>
    rw [List.range_succ, List.flatMap_append, ih, Nat.succ_mul, List.range_add]
    simp

theorem flatMap_of_forall₂ {R : α → γ → Prop} {xs : List α} {ys : List γ} {f : γ → List β} {x : α}
    (h : List.Forall₂ R xs ys) (hn : xs.Nodup) (hx : x ∈ xs) (hother : ∀ x' ∈ xs, ∀ y, R x' y → x' ≠ x → f y = []) :
    ∃ y, R x y ∧ ys.flatMap f = f y := by
  induction h with
  | nil => simp at hx
  | @cons a y as ys hay hrest ih =>
    obtain ⟨ha, hn⟩ := List.nodup_cons.mp hn
    rw [List.flatMap_cons]
    rcases List.mem_cons.mp hx with rfl | hx
    · have hnil : ys.flatMap f = [] := by
        apply List.flatMap_eq_nil_iff.mpr
        intro y' hy'
        obtain ⟨x', hx', hxy⟩ := exists_of_forall₂_mem_right hrest hy'
        exact hother x' (List.mem_cons_of_mem _ hx') y' hxy (fun heq => ha (heq ▸ hx'))
      exact ⟨y, hay, by rw [hnil, List.append_nil]⟩
    · obtain ⟨y', hxy, heq⟩ := ih hn hx (fun x' hx' => hother x' (List.mem_cons_of_mem _ hx'))
      refine ⟨y', hxy, ?_⟩
      rw [hother a List.mem_cons_self y hay (fun heq => ha (heq ▸ hx)), List.nil_append, heq]

theorem flatMap_eq_of_unique {xs : List α} {f : α → List β} {x : α} (hn : xs.Nodup) (hx : x ∈ xs)
    (h : ∀ y ∈ xs, y ≠ x → f y = []) : xs.flatMap f = f x := by
  obtain ⟨y, rfl, heq⟩ := flatMap_of_forall₂ (R := (· = ·)) (f := f) (List.forall₂_same.mpr (fun _ _ => rfl)) hn hx
    (fun x' hx' y hxy hne => hxy ▸ h x' hx' hne)
  exact heq

end Awex
