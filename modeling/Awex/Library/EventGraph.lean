import Awex.Library.Runs
import Mathlib.Algebra.BigOperators.Group.Finset.Basic
import Mathlib.Algebra.GroupWithZero.Nat
import Mathlib.Algebra.Order.BigOperators.Group.Finset
import Mathlib.Data.Finset.Max
import Mathlib.Data.Prod.Lex

namespace Awex.EventGraph

open Runs

variable {μ : Type}

/-- `needs m m' lag` lets `m` happen for the `k`-th time only after `m'` has happened for the
`(k - lag)`-th time; `n` counts how often each event has happened. -/
def Enabled (needs : μ → μ → ℕ → Prop) (n : μ → ℕ) (m : μ) : Prop :=
  ∀ m' lag, needs m m' lag → n m < n m' + lag

def Respects (needs : μ → μ → ℕ → Prop) (n : μ → ℕ) : Prop :=
  ∀ m m' lag, needs m m' lag → n m ≤ n m' + lag

variable [DecidableEq μ]

/-- The counts after one more `m`. -/
def fire (n : μ → ℕ) (m : μ) : μ → ℕ := Function.update n m (n m + 1)

variable {needs : μ → μ → ℕ → Prop} {n : μ → ℕ} {m : μ}

@[simp] theorem fire_self (n : μ → ℕ) (m : μ) : fire n m m = n m + 1 := Function.update_self ..

@[simp] theorem fire_of_ne {m' : μ} (h : m' ≠ m) : fire n m m' = n m' := Function.update_of_ne h ..

theorem fire_apply (n : μ → ℕ) (m m' : μ) : fire n m m' = if m' = m then n m + 1 else n m' :=
  Function.update_apply ..

theorem le_fire (n : μ → ℕ) (m m' : μ) : n m' ≤ fire n m m' := by
  obtain rfl | hne := eq_or_ne m' m
  · rw [fire_self]
    omega
  · rw [fire_of_ne hne]

theorem Respects.fire (h : Respects needs n) (hm : Enabled needs n m) : Respects needs (fire n m) := by
  intro m₁ m₂ lag hneeds
  have hle := le_fire n m m₂
  obtain rfl | hne := eq_or_ne m₁ m
  · have := hm m₂ lag hneeds
    rw [fire_self]
    omega
  · have := h m₁ m₂ lag hneeds
    rw [fire_of_ne hne]
    omega

omit [DecidableEq μ] in
/-- The event that is furthest behind can happen, where the needs within one round follow an order. -/
theorem exists_enabled (rank : μ → ℕ) (hrank : ∀ m m', needs m m' 0 → rank m' < rank m) (events : Finset μ)
    (hclosed : ∀ m ∈ events, ∀ m' lag, needs m m' lag → m' ∈ events) {K : ℕ} (h : ∃ m ∈ events, n m < K) :
    ∃ m ∈ events, n m < K ∧ Enabled needs n m := by
  obtain ⟨m₀, hm₀, hlt⟩ := h
  obtain ⟨m, hm, hmin⟩ := events.exists_min_image (fun m => toLex (n m, rank m)) ⟨m₀, hm₀⟩
  have hle : ∀ m' ∈ events, n m < n m' ∨ n m = n m' ∧ rank m ≤ rank m' := by
    intro m' hm'
    exact Prod.Lex.toLex_le_toLex.mp (hmin m' hm')
  refine ⟨m, hm, ?_, ?_⟩
  · have := hle m₀ hm₀
    omega
  · intro m' lag hneeds
    have hbehind := hle m' (hclosed m hm m' lag hneeds)
    obtain rfl | hpos := Nat.eq_zero_or_pos lag
    · have := hrank m m' hneeds
      omega
    · omega

/-- What is left until every event has happened `K` times. -/
def remaining (events : Finset μ) (K : ℕ) (n : μ → ℕ) : ℕ := ∑ m ∈ events, (K - n m)

theorem remaining_fire {events : Finset μ} {K : ℕ} (hm : m ∈ events) (hlt : n m < K) :
    remaining events K (fire n m) < remaining events K n := by
  apply Finset.sum_lt_sum
  · intro m' _
    have := le_fire n m m'
    omega
  · refine ⟨m, hm, ?_⟩
    rw [fire_self]
    omega

/-- A system whose steps are events, and which can take every event that its needs allow. -/
structure Driven {σ : Type} (step : σ → σ → Prop) (I : σ → Prop) (count : σ → μ → ℕ) (needs : μ → μ → ℕ → Prop)
    (events : Finset μ) (K : ℕ) : Prop where
  keeps : ∀ s s', I s → step s s' → I s'
  fires : ∀ s s', I s → step s s' → ∃ m ∈ events, count s m < K ∧ count s' = fire (count s) m
  takes : ∀ s, I s → ∀ m ∈ events, count s m < K → Enabled needs (count s) m → ∃ s', step s s'

namespace Driven

variable {σ : Type} {step : σ → σ → Prop} {I : σ → Prop} {count : σ → μ → ℕ} {events : Finset μ} {K : ℕ}
  (h : Driven step I count needs events K)
include h

theorem remaining_lt {s s' : σ} (hs : I s) (hstep : step s s') :
    remaining events K (count s') < remaining events K (count s) := by
  obtain ⟨m, hm, hlt, hcount⟩ := h.fires s s' hs hstep
  rw [hcount]
  exact remaining_fire hm hlt

theorem length_le (path : ℕ → σ) (hstart : I (path 0)) {l : ℕ} (hpath : ∀ i < l, step (path i) (path (i + 1))) :
    l ≤ remaining events K (count (path 0)) := by
  have hbound : ∀ i ≤ l, I (path i) ∧
      i + remaining events K (count (path i)) ≤ remaining events K (count (path 0)) := by
    intro i
    induction i with
    | zero => exact fun _ => ⟨hstart, by omega⟩
    | succ i ih =>
      intro hi
      obtain ⟨hs, hle⟩ := ih (by omega)
      have hstep := hpath i (by omega)
      have := h.remaining_lt hs hstep
      exact ⟨h.keeps _ _ hs hstep, by omega⟩
  have := (hbound l le_rfl).2
  omega

variable (rank : μ → ℕ) (hrank : ∀ m m', needs m m' 0 → rank m' < rank m)
  (hclosed : ∀ m ∈ events, ∀ m' lag, needs m m' lag → m' ∈ events)
include hrank hclosed

theorem progress {s : σ} (hs : I s) : (∀ m ∈ events, K ≤ count s m) ∨ ∃ s', step s s' := by
  by_cases hdone : ∃ m ∈ events, count s m < K
  · obtain ⟨m, hm, hlt, henabled⟩ := exists_enabled rank hrank events hclosed hdone
    exact .inr (h.takes s hs m hm hlt henabled)
  · push Not at hdone
    exact .inl hdone

theorem completes {s : σ} (hs : I s) : ∃ s', Run step s s' ∧ ∀ m ∈ events, K ≤ count s' m := by
  induction hl : remaining events K (count s) using Nat.strong_induction_on generalizing s with
  | _ l ih =>
    rcases h.progress rank hrank hclosed hs with hdone | ⟨s', hstep⟩
    · exact ⟨s, .refl, hdone⟩
    · obtain ⟨s'', hrun, hdone⟩ := ih _ (hl ▸ h.remaining_lt hs hstep) (h.keeps _ _ hs hstep) rfl
      exact ⟨s'', hrun.head hstep, hdone⟩

end Driven

end Awex.EventGraph
