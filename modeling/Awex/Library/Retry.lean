import Mathlib.Data.List.Basic

namespace Awex.Retry

/-- A client sends requests and goes on with what it gets for each: a response, or the error of the
last attempt. -/
inductive Client (ρ ω ι ε α : Type) where
  | done (result : Except ε α)
  | send (request : ρ) (next : Except ι ω → Client ρ ω ι ε α)

variable {σ ρ ω ι ε α β : Type}

def retry (step : σ → ρ → σ × ω) : ℕ → List ι → σ → ρ → σ × Except ι ω
  | _, [], state, request => ((step state request).1, .ok (step state request).2)
  | 0, loss :: _, state, request => ((step state request).1, .error loss)
  | retries + 1, _ :: lost, state, request => retry step retries lost (step state request).1 request

namespace Client

def bind : Client ρ ω ι ε α → (α → Client ρ ω ι ε β) → Client ρ ω ι ε β
  | .done (.ok a), f => f a
  | .done (.error e), _ => .done (.error e)
  | .send request next, f => .send request (fun response => (next response).bind f)

def tryCatch : Client ρ ω ι ε α → (ε → Client ρ ω ι ε α) → Client ρ ω ι ε α
  | .done (.ok a), _ => .done (.ok a)
  | .done (.error e), handler => handler e
  | .send request next, handler => .send request (fun response => (next response).tryCatch handler)

/-- `lost i` are the attempts of the `i`-th request whose responses are lost. -/
def run (step : σ → ρ → σ × ω) (retries : ℕ) : Client ρ ω ι ε α → (ℕ → List ι) → σ → σ × Except ε α
  | .done result, _, state => (state, result)
  | .send request next, lost, state =>
    let (state', response) := retry step retries (lost 0) state request
    (next response).run step retries (fun i => lost (i + 1)) state'

def once (step : σ → ρ → σ × ω) (retries : ℕ) (client : Client ρ ω ι ε α) (state : σ) : σ × Except ε α :=
  client.run step retries (fun _ => []) state

end Client

theorem retry_fixed {step : σ → ρ → σ × ω} {state : σ} {request : ρ} {response : ω}
    (h : step state request = (state, response)) {retries : ℕ} {lost : List ι} (hlost : lost.length ≤ retries) :
    retry step retries lost state request = (state, .ok response) := by
  induction lost generalizing retries with
  | nil => rw [retry, h]
  | cons loss lost ih =>
    obtain ⟨retries, rfl⟩ := Nat.exists_eq_succ_of_ne_zero (Nat.ne_zero_of_lt hlost)
    rw [retry, h]
    exact ih (Nat.le_of_succ_le_succ hlost)

theorem Client.bind_done (client : Client ρ ω ι ε α) : client.bind (fun a => .done (.ok a)) = client := by
  induction client with
  | done result => cases result <;> rfl
  | send request next ih =>
    rw [bind]
    congr 1
    funext response
    exact ih response

theorem Client.bind_assoc {γ : Type} (client : Client ρ ω ι ε α) (f : α → Client ρ ω ι ε β)
    (g : β → Client ρ ω ι ε γ) : (client.bind f).bind g = client.bind (fun a => (f a).bind g) := by
  induction client with
  | done result => cases result <;> rfl
  | send request next ih =>
    simp only [bind]
    congr 1
    funext response
    exact ih response

theorem Client.run_bind_ok {step : σ → ρ → σ × ω} {retries : ℕ} {client : Client ρ ω ι ε α}
    {lost : ℕ → List ι} {state state' : σ} {a : α} (h : client.run step retries lost state = (state', .ok a))
    (f : α → Client ρ ω ι ε β) : ∃ n, (client.bind f).run step retries lost state =
      (f a).run step retries (fun i => lost (i + n)) state' := by
  induction client generalizing lost state with
  | done result =>
    rw [run, Prod.mk.injEq] at h
    obtain ⟨rfl, rfl⟩ := h
    exact ⟨0, rfl⟩
  | send request next ih =>
    obtain ⟨n, hn⟩ := ih _ h
    exact ⟨n + 1, hn⟩

theorem Client.run_bind_error {step : σ → ρ → σ × ω} {retries : ℕ} {client : Client ρ ω ι ε α}
    {lost : ℕ → List ι} {state state' : σ} {e : ε} (h : client.run step retries lost state = (state', .error e))
    (f : α → Client ρ ω ι ε β) : (client.bind f).run step retries lost state = (state', .error e) := by
  induction client generalizing lost state with
  | done result =>
    rw [run, Prod.mk.injEq] at h
    obtain ⟨rfl, rfl⟩ := h
    rfl
  | send request next ih => exact ih _ h

section Repeat

variable (step : σ → ρ → σ × ω)

def KeepsState (request : ρ) : Prop :=
  ∀ state, (step (step state request).1 request).1 = (step state request).1

def KeepsResponse (request : ρ) : Prop :=
  ∀ state, (step (step state request).1 request).2 = (step state request).2

/-- Every request may be executed again: the state stays, and so does the response or the client does
not look at it. -/
def Client.Tolerant : Client ρ ω ι ε α → Prop
  | .done _ => True
  | .send request next => KeepsState step request ∧
      (KeepsResponse step request ∨ ∀ response response', next (.ok response) = next (.ok response')) ∧
      ∀ response, (next response).Tolerant

variable {step}

theorem retry_keeps {request : ρ} (hstate : KeepsState step request) {retries : ℕ} {lost : List ι}
    (hlost : lost.length ≤ retries) (state : σ) :
    ∃ response, retry step retries lost state request = ((step state request).1, .ok response) ∧
      (KeepsResponse step request → response = (step state request).2) := by
  induction lost generalizing retries state with
  | nil => exact ⟨_, by rw [retry], fun _ => rfl⟩
  | cons loss lost ih =>
    obtain ⟨retries, rfl⟩ := Nat.exists_eq_succ_of_ne_zero (Nat.ne_zero_of_lt hlost)
    obtain ⟨response, hretry, hresponse⟩ := ih (Nat.le_of_succ_le_succ hlost) (step state request).1
    refine ⟨response, ?_, fun hkeeps => (hresponse hkeeps).trans (hkeeps state)⟩
    rw [retry, hretry, hstate]

theorem Client.Tolerant.bind {client : Client ρ ω ι ε α} {f : α → Client ρ ω ι ε β}
    (h : client.Tolerant step) (hf : ∀ a, (f a).Tolerant step) : (client.bind f).Tolerant step := by
  induction client with
  | done result =>
    cases result with
    | ok a => exact hf a
    | error e => trivial
  | send request next ih =>
    obtain ⟨hstate, hresponse, hnext⟩ := h
    refine ⟨hstate, hresponse.imp_right ?_, fun response => ih response (hnext response)⟩
    intro hconst response response'
    exact congrArg (fun client => client.bind f) (hconst response response')

theorem Client.Tolerant.tryCatch {client : Client ρ ω ι ε α} {handler : ε → Client ρ ω ι ε α}
    (h : client.Tolerant step) (hhandler : ∀ e, (handler e).Tolerant step) :
    (client.tryCatch handler).Tolerant step := by
  induction client with
  | done result =>
    cases result with
    | ok a => trivial
    | error e => exact hhandler e
  | send request next ih =>
    obtain ⟨hstate, hresponse, hnext⟩ := h
    refine ⟨hstate, hresponse.imp_right ?_, fun response => ih response (hnext response)⟩
    intro hconst response response'
    exact congrArg (fun client => client.tryCatch handler) (hconst response response')

/-- Such a client does not notice lost responses. -/
theorem Client.Tolerant.run_eq_once {client : Client ρ ω ι ε α} (h : client.Tolerant step) {retries : ℕ}
    {lost : ℕ → List ι} (hlost : ∀ i, (lost i).length ≤ retries) (state : σ) :
    client.run step retries lost state = client.once step retries state := by
  induction client generalizing lost state with
  | done result => rfl
  | send request next ih =>
    obtain ⟨hstate, hresponse, hnext⟩ := h
    obtain ⟨response, hretry, hkeeps⟩ := retry_keeps hstate (hlost 0) state
    have hgo : next (.ok response) = next (.ok (step state request).2) := by
      rcases hresponse with hresponse | hconst
      · rw [hkeeps hresponse]
      · exact hconst _ _
    rw [once, run, run, hretry]
    simp only [retry]
    rw [hgo]
    exact ih _ (hnext _) (fun i => hlost (i + 1)) _

end Repeat

end Awex.Retry
