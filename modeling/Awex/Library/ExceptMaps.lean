import Awex.Library.ExceptList

namespace Awex

variable {ε α β γ δ : Type}

theorem Except.bind_map_congr {x : Except ε β} {y : Except ε α} {f : α → β} {k : β → Except ε γ}
    {k' : α → Except ε δ} {g : δ → γ} (hx : x = y.map f) (h : ∀ a, k (f a) = (k' a).map g) :
    (x >>= k) = (y >>= k').map g := by
  subst hx
  cases y with
  | error e => rfl
  | ok a => exact h a

theorem Except.bind_map_of {x : Except ε α} {k : α → Except ε γ} {k' : α → Except ε δ} {g : δ → γ}
    (h : ∀ a, k a = (k' a).map g) : (x >>= k) = (x >>= k').map g := by
  cases x with
  | error e => rfl
  | ok a => exact h a

theorem Except.mapM_map_right {xs : List α} {k : α → Except ε γ} {k' : α → Except ε δ} {g : δ → γ}
    (h : ∀ a ∈ xs, k a = (k' a).map g) : xs.mapM k = (xs.mapM k').map (List.map g) := by
  induction xs with
  | nil => rfl
  | cons x xs ih =>
    have hrest := ih fun a ha => h a (List.mem_cons_of_mem x ha)
    rw [List.mapM_cons, List.mapM_cons, h x List.mem_cons_self, hrest]
    cases k' x with
    | error e => rfl
    | ok y => cases xs.mapM k' <;> rfl

end Awex
