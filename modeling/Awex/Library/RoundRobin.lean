import Mathlib.Data.List.Basic
import Mathlib.Data.List.Perm.Basic
import Mathlib.Data.List.Count
import Mathlib.Data.List.Nodup

namespace Awex.RoundRobin

variable {κ β : Type}

/-- The `k`-th pass over the keys: one item of every list that still has a `k`-th one. -/
def row (keys : List κ) (lists : κ → List β) (k : ℕ) : List (κ × β) :=
  keys.filterMap (fun p => (lists p)[k]?.map (fun x => (p, x)))

def weave (keys : List κ) (lists : κ → List β) (n : ℕ) : List (κ × β) :=
  (List.range n).flatMap (row keys lists)

theorem weave_succ (keys : List κ) (lists : κ → List β) (n : ℕ) :
    weave keys lists (n + 1) = weave keys lists n ++ row keys lists n := by
  simp [weave, List.range_succ]

theorem mem_row {keys : List κ} {lists : κ → List β} {k : ℕ} {p : κ} {x : β} :
    (p, x) ∈ row keys lists k ↔ p ∈ keys ∧ (lists p)[k]? = some x := by
  simp only [row, List.mem_filterMap, Option.map_eq_some_iff, Prod.mk.injEq]
  constructor
  · rintro ⟨q, hq, y, hy, rfl, rfl⟩
    exact ⟨hq, hy⟩
  · rintro ⟨hp, hx⟩
    exact ⟨p, hp, x, hx, rfl, rfl⟩

theorem row_eq_nil (keys : List κ) (lists : κ → List β) (k : ℕ)
    (h : ∀ p ∈ keys, (lists p).length ≤ k) : row keys lists k = [] := by
  apply List.filterMap_eq_nil_iff.mpr
  intro p hp
  simp [List.getElem?_eq_none (h p hp)]

theorem row_map_eq {γ : Type} (keys : List κ) (lists : κ → List β) (f : β → γ) (i j : ℕ)
    (hf : ∀ k ∈ keys, ∀ x ∈ lists k, ∀ y ∈ lists k, f x = f y)
    (hi : ∀ k ∈ keys, i < (lists k).length) (hj : ∀ k ∈ keys, j < (lists k).length) :
    (row keys lists i).map (fun e => f e.2) = (row keys lists j).map (fun e => f e.2) := by
  induction keys with
  | nil => rfl
  | cons k keys ih =>
    obtain ⟨hfk, hf⟩ := List.forall_mem_cons.mp hf
    obtain ⟨hik, hi⟩ := List.forall_mem_cons.mp hi
    obtain ⟨hjk, hj⟩ := List.forall_mem_cons.mp hj
    have ih' := ih hf hi hj
    have hk := hfk _ (List.getElem_mem hik) _ (List.getElem_mem hjk)
    simp only [row] at ih'
    simp [row, List.getElem?_eq_getElem hik, List.getElem?_eq_getElem hjk, hk, ih']

theorem row_forall₂ {γ : Type} (R : κ → β → γ → Prop) (keys : List κ) (lists : κ → List β)
    (lists' : κ → List γ) (k : ℕ) (h : ∀ p ∈ keys, List.Forall₂ (R p) (lists p) (lists' p)) :
    List.Forall₂ (fun e e' => R e.1 e.2 e'.2) (row keys lists k) (row keys lists' k) := by
  induction keys with
  | nil => exact .nil
  | cons p keys ih =>
    obtain ⟨hp, h⟩ := List.forall_mem_cons.mp h
    have ih' := ih h
    simp only [row] at ih' ⊢
    by_cases hk : k < (lists p).length
    · have hk' : k < (lists' p).length := hp.length_eq ▸ hk
      simp only [List.filterMap_cons, List.getElem?_eq_getElem hk, List.getElem?_eq_getElem hk',
        Option.map_some]
      exact .cons (hp.get hk hk') ih'
    · have hk' : ¬ k < (lists' p).length := hp.length_eq ▸ hk
      simp only [List.filterMap_cons, List.getElem?_eq_none (Nat.not_lt.mp hk),
        List.getElem?_eq_none (Nat.not_lt.mp hk'), Option.map_none]
      exact ih'

theorem weave_forall₂ {γ : Type} (R : κ → β → γ → Prop) (keys : List κ) (lists : κ → List β)
    (lists' : κ → List γ) (n : ℕ) (h : ∀ p ∈ keys, List.Forall₂ (R p) (lists p) (lists' p)) :
    List.Forall₂ (fun e e' => R e.1 e.2 e'.2) (weave keys lists n) (weave keys lists' n) := by
  induction n with
  | zero => exact .nil
  | succ n ih =>
    rw [weave_succ, weave_succ]
    exact List.rel_append ih (row_forall₂ R keys lists lists' n h)

def chain (keys : List κ) (lists : κ → List β) : List (κ × β) :=
  keys.flatMap (fun p => (lists p).map (fun x => (p, x)))

theorem weave_stable (keys : List κ) (lists : κ → List β) (m n : ℕ) (hmn : m ≤ n)
    (h : ∀ p ∈ keys, (lists p).length ≤ m) : weave keys lists n = weave keys lists m := by
  induction hmn with
  | refl => rfl
  | @step n hmn ih =>
    rw [weave_succ, ih, row_eq_nil keys lists n (fun p hp => Nat.le_trans (h p hp) hmn), List.append_nil]

theorem flatMap_getElem? (l : List β) (n : ℕ) (h : l.length ≤ n) :
    (List.range n).flatMap (fun k => (l[k]?).toList) = l := by
  induction l generalizing n with
  | nil => simp
  | cons x l ih =>
    obtain ⟨m, rfl⟩ : ∃ m, n = m + 1 := ⟨n - 1, by simp only [List.length_cons] at h; omega⟩
    simp only [List.range_succ_eq_map, List.flatMap_cons, List.getElem?_cons_zero,
      Option.toList_some, List.flatMap_map, List.getElem?_cons_succ, List.singleton_append]
    rw [ih m (by simpa using h)]

variable [DecidableEq κ]

theorem filter_row (keys : List κ) (lists : κ → List β) (k : ℕ) (p : κ)
    (hk : keys.Nodup) (hp : p ∈ keys) :
    (row keys lists k).filter (fun e => e.1 = p) = ((lists p)[k]?).toList.map (fun x => (p, x)) := by
  induction keys with
  | nil => simp at hp
  | cons q keys ih =>
    obtain ⟨hq, hk⟩ := List.nodup_cons.mp hk
    by_cases hqp : q = p
    · subst hqp
      have hrest : (row keys lists k).filter (fun e => e.1 = q) = [] := by
        apply List.filter_eq_nil_iff.mpr
        rintro ⟨r, x⟩ hr
        have hr' := (mem_row.mp hr).1
        simp only [decide_eq_true_eq]
        rintro rfl
        exact hq hr'
      simp only [row] at hrest
      cases hx : (lists q)[k]? with
      | none => simp only [row, List.filterMap_cons, hx, Option.map_none, hrest]; rfl
      | some x => simp [row, hx, hrest]
    · have hp' : p ∈ keys := (List.mem_cons.mp hp).resolve_left (Ne.symm hqp)
      have ih' := ih hk hp'
      simp only [row] at ih' ⊢
      cases hx : (lists q)[k]? with
      | none => simpa only [List.filterMap_cons, hx, Option.map_none] using ih'
      | some x =>
        simpa only [List.filterMap_cons, hx, Option.map_some, List.filter_cons, hqp,
          decide_false, Bool.false_eq_true, ↓reduceIte] using ih'

theorem filter_weave (keys : List κ) (lists : κ → List β) (n : ℕ) (p : κ)
    (hk : keys.Nodup) (hp : p ∈ keys) (hn : (lists p).length ≤ n) :
    (weave keys lists n).filter (fun e => e.1 = p) = (lists p).map (fun x => (p, x)) := by
  rw [weave, List.filter_flatMap]
  simp only [filter_row keys lists _ p hk hp]
  rw [← List.map_flatMap, flatMap_getElem? _ _ hn]

theorem filter_weave_not_mem (keys : List κ) (lists : κ → List β) (n : ℕ) (p : κ)
    (hp : p ∉ keys) : (weave keys lists n).filter (fun e => e.1 = p) = [] := by
  apply List.filter_eq_nil_iff.mpr
  rintro ⟨q, x⟩ hq
  obtain ⟨k, -, hr⟩ := List.mem_flatMap.mp hq
  have hq' := (mem_row.mp hr).1
  simp only [decide_eq_true_eq]
  rintro rfl
  exact hp hq'

theorem filter_chain (keys : List κ) (lists : κ → List β) (p : κ) (hk : keys.Nodup) :
    (chain keys lists).filter (fun e => e.1 = p) =
      if p ∈ keys then (lists p).map (fun x => (p, x)) else [] := by
  induction keys with
  | nil => rfl
  | cons q keys ih =>
    obtain ⟨hq, hk⟩ := List.nodup_cons.mp hk
    have ih' := ih hk
    simp only [chain] at ih'
    rw [chain, List.flatMap_cons, List.filter_append, ih']
    by_cases hqp : q = p
    · subst hqp
      rw [if_neg hq, if_pos List.mem_cons_self, List.append_nil, List.filter_eq_self]
      simp
    · have hnone : ((lists q).map (fun x => (q, x))).filter (fun e => e.1 = p) = [] := by
        simp [hqp]
      rw [hnone, List.nil_append]
      simp [Ne.symm hqp]

omit [DecidableEq κ] in
theorem count_filter_key [DecidableEq β] (key : β → κ) (xs : List β) (x : β)
    [DecidablePred (fun y => key y = key x)] :
    List.count x (xs.filter (fun y => key y = key x)) = List.count x xs :=
  List.count_filter (by simp)

theorem nodup_of_filter (key : β → κ) (xs : List β) (h : ∀ p, (xs.filter (fun x => key x = p)).Nodup) :
    xs.Nodup := by
  classical
  rw [List.nodup_iff_count_le_one]
  intro x
  have hx := List.nodup_iff_count_le_one.mp (h (key x)) x
  rwa [count_filter_key] at hx

theorem perm_of_filter_eq (key : β → κ) (xs ys : List β)
    (h : ∀ p, xs.filter (fun x => key x = p) = ys.filter (fun x => key x = p)) : xs.Perm ys := by
  classical
  apply List.perm_iff_count.mpr
  intro x
  have hx := congrArg (List.count x) (h (key x))
  rwa [count_filter_key, count_filter_key] at hx

end Awex.RoundRobin
