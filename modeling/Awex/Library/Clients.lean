import Awex.Library.Retry
import Mathlib.Logic.Function.Basic

namespace Awex.Retry

variable {σ τ ρ ρ' ω ω' ι ι' ε ε' α α' β β' ο : Type}

/-- A server, and the clients that send it requests. -/
structure System (σ ρ ω ι ε α : Type) where
  server : σ
  client : ℕ → Client ρ ω ι ε α

/-- A client begins an operation, or the server answers its next request. -/
inductive ClientEvent (ο : Type) where
  | call (i : ℕ) (op : ο)
  | serve (i : ℕ)
  deriving DecidableEq, Repr

def Client.Running : Client ρ ω ι ε α → Prop
  | .done _ => False
  | .send _ _ => True

namespace System

def start (server : σ) (a : α) : System σ ρ ω ι ε α := ⟨server, fun _ => .done (.ok a)⟩

def goto (s : System σ ρ ω ι ε α) (i : ℕ) (client : Client ρ ω ι ε α) : System σ ρ ω ι ε α :=
  { s with client := Function.update s.client i client }

/-- A client that has raised an exception does not go on. -/
def call (s : System σ ρ ω ι ε α) (i : ℕ) (client : Client ρ ω ι ε α) : System σ ρ ω ι ε α :=
  match s.client i with
  | .done (.ok _) => s.goto i client
  | _ => s

def serve (step : σ → ρ → σ × ω) (s : System σ ρ ω ι ε α) (i : ℕ) : System σ ρ ω ι ε α :=
  match s.client i with
  | .send request next => ⟨(step s.server request).1, (s.goto i (next (.ok (step s.server request).2))).client⟩
  | .done _ => s

def next (step : σ → ρ → σ × ω) (program : ο → Client ρ ω ι ε α) (s : System σ ρ ω ι ε α) :
    ClientEvent ο → System σ ρ ω ι ε α
  | .call i op => s.call i (program op)
  | .serve i => s.serve step i

def run (step : σ → ρ → σ × ω) (program : ο → Client ρ ω ι ε α) (s : System σ ρ ω ι ε α)
    (events : List (ClientEvent ο)) : System σ ρ ω ι ε α :=
  events.foldl (next step program) s

theorem goto_client (s : System σ ρ ω ι ε α) (i j : ℕ) (client : Client ρ ω ι ε α) :
    (s.goto i client).client j = if j = i then client else s.client j :=
  Function.update_apply ..

@[simp] theorem goto_goto (s : System σ ρ ω ι ε α) (i : ℕ) (client client' : Client ρ ω ι ε α) :
    (s.goto i client).goto i client' = s.goto i client' := by
  simp [goto]

section Cases

variable {s : System σ ρ ω ι ε α} {i : ℕ}

theorem call_returned {a : α} (h : s.client i = .done (.ok a)) (client : Client ρ ω ι ε α) :
    s.call i client = s.goto i client := by
  unfold call
  rw [h]

theorem call_raised {e : ε} (h : s.client i = .done (.error e)) (client : Client ρ ω ι ε α) : s.call i client = s := by
  unfold call
  rw [h]

theorem call_running {request : ρ} {next : Except ι ω → Client ρ ω ι ε α} (h : s.client i = .send request next)
    (client : Client ρ ω ι ε α) : s.call i client = s := by
  unfold call
  rw [h]

theorem serve_running {request : ρ} {next : Except ι ω → Client ρ ω ι ε α} (h : s.client i = .send request next)
    (step : σ → ρ → σ × ω) : s.serve step i =
      ⟨(step s.server request).1, (s.goto i (next (.ok (step s.server request).2))).client⟩ := by
  unfold serve
  rw [h]

theorem serve_done {result : Except ε α} (h : s.client i = .done result) (step : σ → ρ → σ × ω) :
    s.serve step i = s := by
  unfold serve
  rw [h]

end Cases

end System

section Refinement

variable (step : σ → ρ → σ × ω) (step' : τ → ρ' → τ × ω') (R : σ → τ → Prop) (E : ε → ε' → Prop)

/-- As long as the servers are related, the clients send requests that keep them related, and end alike. -/
def Client.Refines (V : α → β → Prop) : Client ρ ω ι ε α → Client ρ' ω' ι' ε' β → Prop
  | .done (.ok a), .done (.ok b) => V a b
  | .done (.error e), .done (.error e') => E e e'
  | .send request next, .send request' next' => ∀ s t, R s t →
      R (step s request).1 (step' t request').1 ∧
        (next (.ok (step s request).2)).Refines V (next' (.ok (step' t request').2))
  | _, _ => False

/-- Both clients still run, or both have ended, with matching results. -/
inductive Client.EndsLike (V : α → β → Prop) : Client ρ ω ι ε α → Client ρ' ω' ι' ε' β → Prop where
  | running (request : ρ) (next : Except ι ω → Client ρ ω ι ε α) (request' : ρ')
      (next' : Except ι' ω' → Client ρ' ω' ι' ε' β) : EndsLike V (.send request next) (.send request' next')
  | returned {a : α} {b : β} (h : V a b) : EndsLike V (.done (.ok a)) (.done (.ok b))
  | raised {e : ε} {e' : ε'} (h : E e e') : EndsLike V (.done (.error e)) (.done (.error e'))

variable {step step' R E} {V : α → β → Prop} {client : Client ρ ω ι ε α} {client' : Client ρ' ω' ι' ε' β}

theorem Client.Refines.endsLike (h : client.Refines step step' R E V client') : client.EndsLike E V client' := by
  cases client with
  | done result => rcases result with e | a <;> rcases client' with (e' | b) | _ <;>
      first | exact h.elim | exact .returned h | exact .raised h
  | send request next =>
    cases client' with
    | done result => cases result <;> exact h.elim
    | send request' next' => exact .running ..

theorem Client.Refines.bind (h : client.Refines step step' R E V client') {W : α' → β' → Prop}
    {f : α → Client ρ ω ι ε α'} {f' : β → Client ρ' ω' ι' ε' β'}
    (hf : ∀ a b, V a b → (f a).Refines step step' R E W (f' b)) :
    (client.bind f).Refines step step' R E W (client'.bind f') := by
  induction client generalizing client' with
  | done result =>
    cases h.endsLike with
    | returned hab => exact hf _ _ hab
    | raised he => exact he
  | send request next ih =>
    cases h.endsLike
    intro s t hst
    obtain ⟨hserver, hnext⟩ := h s t hst
    exact ⟨hserver, ih _ hnext⟩

theorem Client.Refines.tryCatch (h : client.Refines step step' R E V client')
    {handler : ε → Client ρ ω ι ε α} {handler' : ε' → Client ρ' ω' ι' ε' β}
    (hhandler : ∀ e e', E e e' → (handler e).Refines step step' R E V (handler' e')) :
    (client.tryCatch handler).Refines step step' R E V (client'.tryCatch handler') := by
  induction client generalizing client' with
  | done result =>
    cases h.endsLike with
    | returned hab => exact hab
    | raised he => exact hhandler _ _ he
  | send request next ih =>
    cases h.endsLike
    intro s t hst
    obtain ⟨hserver, hnext⟩ := h s t hst
    exact ⟨hserver, ih _ hnext⟩

variable (step step' R E V) in
def System.Refines (s : System σ ρ ω ι ε α) (t : System τ ρ' ω' ι' ε' β) : Prop :=
  R s.server t.server ∧ ∀ i, (s.client i).Refines step step' R E V (t.client i)

variable {s : System σ ρ ω ι ε α} {t : System τ ρ' ω' ι' ε' β} {program : ο → Client ρ ω ι ε α}
  {program' : ο → Client ρ' ω' ι' ε' β}

theorem System.Refines.goto (h : s.Refines step step' R E V t) {i : ℕ} {client : Client ρ ω ι ε α}
    {client' : Client ρ' ω' ι' ε' β} (hclient : client.Refines step step' R E V client') (j : ℕ) :
    ((s.goto i client).client j).Refines step step' R E V ((t.goto i client').client j) := by
  rw [goto_client, goto_client]
  split_ifs
  · exact hclient
  · exact h.2 j

theorem System.Refines.call (h : s.Refines step step' R E V t) (i : ℕ) {client : Client ρ ω ι ε α}
    {client' : Client ρ' ω' ι' ε' β} (hclient : client.Refines step step' R E V client') :
    (s.call i client).Refines step step' R E V (t.call i client') := by
  have hi := (h.2 i).endsLike
  generalize hs : s.client i = c at hi
  generalize ht : t.client i = c' at hi
  cases hi with
  | returned _ =>
    rw [call_returned hs, call_returned ht]
    exact ⟨h.1, h.goto hclient⟩
  | raised _ =>
    rw [call_raised hs, call_raised ht]
    exact h
  | running =>
    rw [call_running hs, call_running ht]
    exact h

theorem System.Refines.serve (h : s.Refines step step' R E V t) (i : ℕ) :
    (s.serve step i).Refines step step' R E V (t.serve step' i) := by
  have hi := h.2 i
  have hends := hi.endsLike
  generalize hs : s.client i = c at hi hends
  generalize ht : t.client i = c' at hi hends
  cases hends with
  | returned _ =>
    rw [serve_done hs, serve_done ht]
    exact h
  | raised _ =>
    rw [serve_done hs, serve_done ht]
    exact h
  | running request next request' next' =>
    obtain ⟨hserver, hnext⟩ := hi _ _ h.1
    rw [serve_running hs, serve_running ht]
    exact ⟨hserver, h.goto hnext⟩

/-- Whatever the clients do, and however their requests interleave, both systems stay related. -/
theorem System.Refines.run (h : s.Refines step step' R E V t) {events : List (ClientEvent ο)}
    (hcall : ∀ i op, .call i op ∈ events → (program op).Refines step step' R E V (program' op)) :
    (s.run step program events).Refines step step' R E V (t.run step' program' events) := by
  induction events generalizing s t with
  | nil => exact h
  | cons event events ih =>
    have hnext : (s.next step program event).Refines step step' R E V (t.next step' program' event) := by
      cases event with
      | call i op => exact h.call i (hcall i op List.mem_cons_self)
      | serve i => exact h.serve i
    apply ih hnext
    intro i op hop
    exact hcall i op (List.mem_cons_of_mem _ hop)

end Refinement

end Awex.Retry
