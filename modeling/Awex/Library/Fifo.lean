import Mathlib.Data.List.Basic
import Mathlib.Logic.Function.Basic

namespace Awex.Fifo

variable {κ β μ : Type} [DecidableEq κ]

def deliver (key : β → κ) (queues : κ → List μ) : List β → Option (List (β × μ) × (κ → List μ))
  | [] => some ([], queues)
  | x :: xs => match queues (key x) with
    | [] => none
    | msg :: rest => (deliver key (Function.update queues (key x) rest) xs).map
      (fun (pairs, left) => ((x, msg) :: pairs, left))

theorem deliver_cons_eq_some {key : β → κ} {queues left : κ → List μ} {x : β} {xs : List β}
    {pairs : List (β × μ)} : deliver key queues (x :: xs) = some (pairs, left) ↔
      ∃ msg rest more, queues (key x) = msg :: rest ∧ pairs = (x, msg) :: more ∧
        deliver key (Function.update queues (key x) rest) xs = some (more, left) := by
  cases hq : queues (key x) with
  | nil => simp [deliver, hq]
  | cons msg rest =>
    simp only [deliver, hq, Option.map_eq_some_iff, Prod.mk.injEq, Prod.exists, List.cons.injEq]
    constructor
    · rintro ⟨more, left', hd, rfl, rfl⟩
      exact ⟨msg, rest, more, ⟨rfl, rfl⟩, rfl, hd⟩
    · rintro ⟨_, _, more, ⟨rfl, rfl⟩, rfl, hd⟩
      exact ⟨more, left, hd, rfl, rfl⟩

theorem deliver_requests {key : β → κ} {queues left : κ → List μ} {xs : List β} {pairs : List (β × μ)}
    (h : deliver key queues xs = some (pairs, left)) : pairs.map Prod.fst = xs := by
  induction xs generalizing queues pairs with
  | nil =>
    obtain ⟨rfl, -⟩ : [] = pairs ∧ queues = left := by simpa [deliver] using h
    rfl
  | cons x xs ih =>
    obtain ⟨msg, rest, more, -, rfl, hd⟩ := deliver_cons_eq_some.mp h
    rw [List.map_cons, ih hd]

theorem deliver_queue {key : β → κ} {queues left : κ → List μ} {xs : List β} {pairs : List (β × μ)}
    (h : deliver key queues xs = some (pairs, left)) (k : κ) :
    queues k = (pairs.filter (fun p => key p.1 = k)).map Prod.snd ++ left k := by
  induction xs generalizing queues pairs with
  | nil =>
    obtain ⟨rfl, rfl⟩ : [] = pairs ∧ queues = left := by simpa [deliver] using h
    rfl
  | cons x xs ih =>
    obtain ⟨msg, rest, more, hq, rfl, hd⟩ := deliver_cons_eq_some.mp h
    have hk := ih hd
    by_cases hx : key x = k
    · subst hx
      rw [Function.update_self] at hk
      simp [hq, hk]
    · rw [Function.update_of_ne (Ne.symm hx)] at hk
      simp [hx, hk]

theorem filter_deliver {key : β → κ} {queues left : κ → List μ} {xs : List β} {pairs : List (β × μ)}
    (h : deliver key queues xs = some (pairs, left)) (k : κ) :
    pairs.filter (fun p => key p.1 = k) = (xs.filter (fun x => key x = k)).zip (queues k) := by
  have hfst : (pairs.filter (fun p => key p.1 = k)).map Prod.fst = xs.filter (fun x => key x = k) := by
    rw [← deliver_requests h, List.filter_map]
    rfl
  rw [← hfst, deliver_queue h k]
  generalize pairs.filter (fun p => key p.1 = k) = mine
  induction mine with
  | nil => rfl
  | cons p mine ih => simp [← ih]

theorem deliver_isSome (key : β → κ) (queues : κ → List μ) (xs : List β)
    (h : ∀ k, (xs.filter (fun x => key x = k)).length ≤ (queues k).length) :
    ∃ pairs left, deliver key queues xs = some (pairs, left) := by
  induction xs generalizing queues with
  | nil => exact ⟨[], queues, rfl⟩
  | cons x xs ih =>
    have hx := h (key x)
    simp only [decide_true, List.filter_cons_of_pos, List.length_cons] at hx
    obtain ⟨msg, rest, hq⟩ := List.exists_cons_of_length_pos (by omega : 0 < (queues (key x)).length)
    obtain ⟨more, left, hd⟩ := ih (Function.update queues (key x) rest) (fun k => by
      by_cases hk : k = key x
      · subst hk
        rw [Function.update_self]
        simp only [hq, List.length_cons] at hx
        omega
      · rw [Function.update_of_ne hk]
        have hk' := h k
        rwa [List.filter_cons_of_neg (by simpa using Ne.symm hk)] at hk')
    exact ⟨_, left, deliver_cons_eq_some.mpr ⟨msg, rest, more, hq, rfl, hd⟩⟩

theorem deliver_of_prefix (key : β → κ) (queues : κ → List μ) (xs : List β) (requests : κ → List (β × μ)) (rest : κ → List μ)
    (hxs : ∀ k, xs.filter (fun x => key x = k) = (requests k).map Prod.fst)
    (hqueues : ∀ k, queues k = (requests k).map Prod.snd ++ rest k) :
    ∃ pairs, deliver key queues xs = some (pairs, rest) ∧
      ∀ k, pairs.filter (fun p => key p.1 = k) = requests k := by
  obtain ⟨pairs, left, hd⟩ := deliver_isSome key queues xs (fun k => by
    rw [hxs, hqueues, List.length_append, List.length_map, List.length_map]
    exact Nat.le_add_right _ _)
  have hpairs : ∀ k, pairs.filter (fun p => key p.1 = k) = requests k := by
    intro k
    rw [filter_deliver hd k, hxs, hqueues]
    generalize requests k = mine
    induction mine with
    | nil => rfl
    | cons p mine ih => simpa using ih
  refine ⟨pairs, ?_, hpairs⟩
  have hleft : left = rest := by
    funext k
    have hk := deliver_queue hd k
    rw [hpairs, hqueues] at hk
    exact (List.append_cancel_left hk).symm
  rw [hd, hleft]

end Awex.Fifo
