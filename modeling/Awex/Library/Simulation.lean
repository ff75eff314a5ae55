import Mathlib.Data.List.Basic

namespace Awex.Simulation

variable {σ τ ι : Type}

/-- Steps that each say what event they are. -/
inductive Trace (step : σ → ι → σ → Prop) : σ → List ι → σ → Prop where
  | nil (s : σ) : Trace step s [] s
  | cons {s s' s'' : σ} {event : ι} {events : List ι} (first : step s event s') (rest : Trace step s' events s'') :
      Trace step s (event :: events) s''

/-- Related states stay related when both sides take the step of the same event. -/
def Simulates (step : σ → ι → σ → Prop) (next : τ → ι → τ) (R : σ → τ → Prop) : Prop :=
  ∀ s event s' t, R s t → step s event s' → R s' (next t event)

variable {step : σ → ι → σ → Prop} {next : τ → ι → τ} {R : σ → τ → Prop}

theorem Simulates.trace (h : Simulates step next R) {s s' : σ} {events : List ι}
    (htrace : Trace step s events s') {t : τ} (hrelated : R s t) : R s' (events.foldl next t) := by
  induction htrace generalizing t with
  | nil => exact hrelated
  | cons hfirst _ ih => exact ih (h _ _ _ _ hrelated hfirst)

end Awex.Simulation
