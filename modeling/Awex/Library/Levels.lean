import Awex.Library.Runs
import Mathlib.Algebra.BigOperators.Group.Finset.Basic
import Mathlib.Algebra.GroupWithZero.Nat
import Mathlib.Algebra.Order.BigOperators.Group.Finset
import Mathlib.Data.Finset.Max

namespace Awex.Levels

open Runs

variable {σ ι τ : Type}

/-- Whatever has a lower level is done everywhere. -/
def Reached (todo : ι → List τ) (level : ι → τ → ℕ) (parties : Finset ι) (l : ℕ) : Prop :=
  ∀ q ∈ parties, ∀ t ∈ todo q, l ≤ level q t

/-- Parties that work off lists of tasks. -/
structure Working (step : σ → σ → Prop) (I : σ → Prop) (todo : σ → ι → List τ) (parties : Finset ι) : Prop where
  keeps : ∀ s s', I s → step s s' → I s'
  pops : ∀ s s', I s → step s s' → ∃ p ∈ parties, ∃ t, todo s p = t :: todo s' p ∧ ∀ q, q ≠ p → todo s' q = todo s q

/-- The tasks come in the order of their levels, and one can be done once whatever has a lower level
is done. -/
structure Leveled (step : σ → σ → Prop) (I : σ → Prop) (todo : σ → ι → List τ) (level : ι → τ → ℕ)
    (parties : Finset ι) : Prop extends Working step I todo parties where
  sorted : ∀ s, I s → ∀ p ∈ parties, (todo s p).Pairwise (fun t t' => level p t ≤ level p t')
  takes : ∀ s, I s → ∀ p ∈ parties, ∀ t rest, todo s p = t :: rest → Reached (todo s) level parties (level p t) →
    ∃ s', step s s'

def Done (todo : ι → List τ) (parties : Finset ι) : Prop := ∀ p ∈ parties, todo p = []

def left (todo : ι → List τ) (parties : Finset ι) : ℕ := ∑ p ∈ parties, (todo p).length

theorem left_union_le [DecidableEq ι] (todo : ι → List τ) (A B : Finset ι) :
    left todo (A ∪ B) ≤ left todo A + left todo B := by
  unfold left
  rw [← Finset.sum_union_inter]
  exact Nat.le_add_right _ _

theorem left_le {todo : ι → List τ} {A : Finset ι} {n k : ℕ} (hcard : A.card ≤ n)
    (hlength : ∀ p ∈ A, (todo p).length ≤ k) : left todo A ≤ k * n := by
  calc left todo A ≤ ∑ _p ∈ A, k := Finset.sum_le_sum hlength
    _ = A.card * k := Finset.sum_const_nat fun _ _ => rfl
    _ ≤ k * n := by
      rw [Nat.mul_comm]
      exact Nat.mul_le_mul_left k hcard

section Arrival

variable {level : τ → ℕ} {program todo : List τ} {t : τ}

theorem le_of_arrived (hsorted : program.Pairwise (fun t t' => level t < level t')) (hsuffix : todo <:+ program)
    (ht : t ∈ program) (harrived : t ∉ todo.tail) {t' : τ} (ht' : t' ∈ todo) : level t ≤ level t' := by
  obtain ⟨done, rfl⟩ := hsuffix
  obtain ⟨-, htodo, hcross⟩ := List.pairwise_append.mp hsorted
  rcases List.mem_append.mp ht with ht | ht
  · exact (hcross t ht t' ht').le
  · cases todo with
    | nil => cases ht
    | cons u rest =>
      obtain rfl : t = u := (List.mem_cons.mp ht).resolve_right harrived
      rcases List.mem_cons.mp ht' with rfl | ht'
      · exact le_rfl
      · exact ((List.pairwise_cons.mp htodo).1 t' ht').le

theorem arrived_of_le (hsorted : todo.Pairwise (fun t t' => level t < level t'))
    (h : ∀ t' ∈ todo, level t ≤ level t') : t ∉ todo.tail := by
  cases todo with
  | nil => exact List.not_mem_nil
  | cons u rest =>
    intro ht
    have hlt := (List.pairwise_cons.mp hsorted).1 t ht
    have hle := h u List.mem_cons_self
    omega

end Arrival

variable {step : σ → σ → Prop} {I : σ → Prop} {todo : σ → ι → List τ} {level : ι → τ → ℕ} {parties : Finset ι}

namespace Working

variable (h : Working step I todo parties)
include h

theorem left_eq {s s' : σ} (hs : I s) (hstep : step s s') : left (todo s) parties = left (todo s') parties + 1 := by
  classical
  obtain ⟨p, hp, t, hnext, hothers⟩ := h.pops s s' hs hstep
  unfold left
  rw [← Finset.add_sum_erase _ _ hp, ← Finset.add_sum_erase _ _ hp, hnext]
  have hrest : ∑ q ∈ parties.erase p, (todo s q).length = ∑ q ∈ parties.erase p, (todo s' q).length := by
    apply Finset.sum_congr rfl
    intro q hq
    rw [hothers q (Finset.ne_of_mem_erase hq)]
  rw [hrest, List.length_cons]
  omega

theorem length_le (path : ℕ → σ) (hstart : I (path 0)) {l : ℕ} (hpath : ∀ i < l, step (path i) (path (i + 1))) :
    l ≤ left (todo (path 0)) parties := by
  have hbound : ∀ i ≤ l, I (path i) ∧ i + left (todo (path i)) parties = left (todo (path 0)) parties := by
    intro i
    induction i with
    | zero => exact fun _ => ⟨hstart, Nat.zero_add _⟩
    | succ i ih =>
      intro hi
      obtain ⟨hs, heq⟩ := ih (by omega)
      have hstep := hpath i (by omega)
      have hless := h.left_eq hs hstep
      exact ⟨h.keeps _ _ hs hstep, by omega⟩
  have := (hbound l le_rfl).2
  omega

end Working

namespace Leveled

variable (h : Leveled step I todo level parties)
include h

theorem progress {s : σ} (hs : I s) : Done (todo s) parties ∨ ∃ s', step s s' := by
  classical
  by_cases hdone : Done (todo s) parties
  · exact .inl hdone
  · right
    have hbusy : (parties.filter fun p => todo s p ≠ []).Nonempty := by
      unfold Done at hdone
      push Not at hdone
      obtain ⟨p, hp, hne⟩ := hdone
      exact ⟨p, Finset.mem_filter.mpr ⟨hp, hne⟩⟩
    -- a party whose next task has the lowest level
    obtain ⟨p, hp, hmin⟩ := Finset.exists_min_image _ (fun p => ((todo s p).head?.map (level p)).getD 0) hbusy
    obtain ⟨hp, hne⟩ := Finset.mem_filter.mp hp
    obtain ⟨t, rest, hnext⟩ := List.exists_cons_of_ne_nil hne
    apply h.takes s hs p hp t rest hnext
    intro q hq t' ht'
    obtain ⟨u, rest', hnext'⟩ := List.exists_cons_of_ne_nil (List.ne_nil_of_mem ht')
    have hlevel := hmin q (Finset.mem_filter.mpr ⟨hq, List.ne_nil_of_mem ht'⟩)
    simp only [hnext, hnext', List.head?_cons, Option.map_some, Option.getD_some] at hlevel
    have hsorted := h.sorted s hs q hq
    rw [hnext'] at ht' hsorted
    rcases List.mem_cons.mp ht' with rfl | ht'
    · exact hlevel
    · exact hlevel.trans ((List.pairwise_cons.mp hsorted).1 t' ht')

theorem completes {s : σ} (hs : I s) : ∃ s', Run step s s' ∧ Done (todo s') parties := by
  induction hl : left (todo s) parties using Nat.strong_induction_on generalizing s with
  | _ l ih =>
    rcases h.progress hs with hdone | ⟨s', hstep⟩
    · exact ⟨s, .refl, hdone⟩
    · have hlt := h.toWorking.left_eq hs hstep
      obtain ⟨s'', hrun, hdone⟩ := ih _ (by omega) (h.keeps s s' hs hstep) rfl
      exact ⟨s'', hrun.head hstep, hdone⟩

end Leveled

end Awex.Levels
