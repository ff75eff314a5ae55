import Mathlib.Data.Option.Basic
import Mathlib.Order.Basic

namespace Awex.Schedules

/-- Processes take turns; `fire s a` is what process `a` does next, if it can do anything. -/
def run {κ σ : Type} (fire : σ → κ → Option σ) (s : σ) : List κ → Option σ
  | [] => some s
  | a :: schedule => (fire s a).bind (run fire · schedule)

/-- What one process does leaves open what the others can do, and the order makes no difference. -/
def Commute {κ σ : Type} (fire : σ → κ → Option σ) : Prop :=
  ∀ s a b s₁ s₂, a ≠ b → fire s a = some s₁ → fire s b = some s₂ → ∃ s₃, fire s₁ b = some s₃ ∧ fire s₂ a = some s₃

def Ended {κ σ : Type} (fire : σ → κ → Option σ) (s : σ) : Prop := ∀ a, fire s a = none

variable {κ σ : Type} {fire : σ → κ → Option σ}

@[simp] theorem run_nil (s : σ) : run fire s [] = some s := rfl

theorem run_cons_eq_some {s m : σ} {a : κ} {schedule : List κ} :
    run fire s (a :: schedule) = some m ↔ ∃ s', fire s a = some s' ∧ run fire s' schedule = some m :=
  Option.bind_eq_some_iff

theorem run_append {s s' : σ} {schedule rest : List κ} (h : run fire s schedule = some s') :
    run fire s (schedule ++ rest) = run fire s' rest := by
  induction schedule generalizing s with
  | nil =>
    obtain rfl := Option.some.inj h
    rfl
  | cons a schedule ih =>
    obtain ⟨s₁, hfire, hrun⟩ := run_cons_eq_some.mp h
    rw [List.cons_append, run, hfire]
    exact ih hrun

theorem run_invariant {P : σ → Prop} (hstep : ∀ s a s', P s → fire s a = some s' → P s') {s s' : σ}
    {schedule : List κ} (h : run fire s schedule = some s') (hs : P s) : P s' := by
  induction schedule generalizing s with
  | nil =>
    obtain rfl := Option.some.inj h
    exact hs
  | cons a schedule ih =>
    obtain ⟨s₁, hfire, hrun⟩ := run_cons_eq_some.mp h
    exact ih hrun (hstep s a s₁ hs hfire)

section Commuting

variable [DecidableEq κ] (hcommute : Commute fire)

include hcommute

theorem run_first {s s' m : σ} {a : κ} {schedule : List κ} (hrun : run fire s schedule = some m) (hend : Ended fire m)
    (hfire : fire s a = some s') :
    ∃ rest, run fire s' rest = some m ∧ rest.length + 1 = schedule.length := by
  induction schedule generalizing s s' with
  | nil =>
    obtain rfl := Option.some.inj hrun
    rw [hend a] at hfire
    exact absurd hfire (Option.some_ne_none _).symm
  | cons b schedule ih =>
    obtain ⟨s₁, hfire₁, hrun₁⟩ := run_cons_eq_some.mp hrun
    by_cases hab : a = b
    · subst hab
      obtain rfl := Option.some.inj (hfire.symm.trans hfire₁)
      exact ⟨schedule, hrun₁, rfl⟩
    · obtain ⟨s₂, hb, ha⟩ := hcommute s a b s' s₁ hab hfire hfire₁
      obtain ⟨rest, hrest, hlength⟩ := ih hrun₁ ha
      refine ⟨b :: rest, run_cons_eq_some.mpr ⟨s₂, hb, hrest⟩, ?_⟩
      simp only [List.length_cons]
      omega

/-- If one run ends, every run can be continued to the same end, with as many steps in all. -/
theorem run_completes {s s' m : σ} {schedule done : List κ} (hrun : run fire s schedule = some m)
    (hend : Ended fire m) (hdone : run fire s done = some s') :
    ∃ rest, run fire s' rest = some m ∧ done.length + rest.length = schedule.length := by
  induction done generalizing s schedule with
  | nil =>
    obtain rfl := Option.some.inj hdone
    exact ⟨schedule, hrun, Nat.zero_add _⟩
  | cons a done ih =>
    obtain ⟨s₁, hfire, hdone₁⟩ := run_cons_eq_some.mp hdone
    obtain ⟨schedule₁, hrun₁, hlength₁⟩ := run_first hcommute hrun hend hfire
    obtain ⟨rest, hrest, hlength⟩ := ih hrun₁ hdone₁
    refine ⟨rest, hrest, ?_⟩
    simp only [List.length_cons]
    omega

theorem run_end_unique {s m m' : σ} {schedule schedule' : List κ} (hrun : run fire s schedule = some m)
    (hend : Ended fire m) (hrun' : run fire s schedule' = some m') (hend' : Ended fire m') : m' = m := by
  obtain ⟨rest, hrest, -⟩ := run_completes hcommute hrun hend hrun'
  cases rest with
  | nil => exact Option.some.inj hrest
  | cons a rest =>
    obtain ⟨s', hfire, -⟩ := run_cons_eq_some.mp hrest
    rw [hend' a] at hfire
    exact absurd hfire (Option.some_ne_none _).symm

end Commuting

end Awex.Schedules
