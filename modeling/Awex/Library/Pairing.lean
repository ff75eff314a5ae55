import Awex.Library.RoundRobin
import Mathlib.Data.List.Permutation
import Mathlib.Logic.Function.Basic

namespace Awex.Pairing

variable {κ α β : Type}

/-- The half of a pair that waits for the other one, if any. -/
abbrev Half (α β : Type) := Option α × Option β

abbrev Halves (κ α β : Type) := κ → Half α β

def empty : Halves κ α β := fun _ => (none, none)

def put (held : Half α β) : α ⊕ β → Half α β
  | .inl a => (some a, held.2)
  | .inr b => (held.1, some b)

/-- A full pair leaves, and nothing waits any more. -/
def release : Half α β → List (α × β) × Half α β
  | (some a, some b) => ([(a, b)], (none, none))
  | held => ([], held)

variable [DecidableEq κ]

def step (cache : Halves κ α β) (item : κ × (α ⊕ β)) : List (κ × α × β) × Halves κ α β :=
  let released := release (put (cache item.1) item.2)
  (released.1.map (fun pair => (item.1, pair)), Function.update cache item.1 released.2)

def run (cache : Halves κ α β) : List (κ × (α ⊕ β)) → List (κ × α × β) × Halves κ α β
  | [] => ([], cache)
  | item :: items =>
    let (pairs, cache) := step cache item
    let (rest, cache) := run cache items
    (pairs ++ rest, cache)

variable {cache cache' : Halves κ α β} {key : κ}

theorem run_cons (item : κ × (α ⊕ β)) (items : List (κ × (α ⊕ β))) : run cache (item :: items) =
    ((step cache item).1 ++ (run (step cache item).2 items).1, (run (step cache item).2 items).2) :=
  rfl

theorem step_of_ne (cache : Halves κ α β) {item : κ × (α ⊕ β)} (h : item.1 ≠ key) :
    (step cache item).1.filter (fun pair => pair.1 = key) = [] ∧ (step cache item).2 key = cache key := by
  constructor
  · apply List.filter_eq_nil_iff.mpr
    intro pair hpair
    obtain ⟨ab, -, rfl⟩ := List.mem_map.mp hpair
    simpa using h
  · exact Function.update_of_ne (Ne.symm h) _ _

theorem step_congr {item : κ × (α ⊕ β)} (h : cache item.1 = cache' item.1) :
    (step cache item).1 = (step cache' item).1 ∧ (step cache item).2 item.1 = (step cache' item).2 item.1 := by
  unfold step
  dsimp only
  rw [h, Function.update_self, Function.update_self]
  exact ⟨rfl, rfl⟩

theorem run_filter (items : List (κ × (α ⊕ β))) (h : cache key = cache' key) :
    (run cache items).1.filter (fun pair => pair.1 = key) =
        (run cache' (items.filter (fun item => item.1 = key))).1.filter (fun pair => pair.1 = key) ∧
      (run cache items).2 key = (run cache' (items.filter (fun item => item.1 = key))).2 key := by
  induction items generalizing cache cache' with
  | nil => exact ⟨rfl, h⟩
  | cons item items ih =>
    by_cases hkey : item.1 = key
    · subst hkey
      obtain ⟨hpairs, hheld⟩ := step_congr h
      obtain ⟨hrest, hcache⟩ := ih hheld
      rw [List.filter_cons_of_pos (by simp), run_cons, run_cons, List.filter_append, List.filter_append, hpairs, hrest]
      exact ⟨rfl, hcache⟩
    · obtain ⟨hpairs, hheld⟩ := step_of_ne cache hkey
      obtain ⟨hrest, hcache⟩ := ih (hheld.trans h)
      rw [List.filter_cons_of_neg (by simpa using hkey), run_cons, List.filter_append, hpairs, hrest]
      exact ⟨rfl, hcache⟩

def halves (pair : κ × α × β) : List (κ × (α ⊕ β)) := [(pair.1, .inl pair.2.1), (pair.1, .inr pair.2.2)]

omit [DecidableEq κ] in
theorem mem_halves {pair : κ × α × β} {item : κ × (α ⊕ β)} (h : item ∈ halves pair) : item.1 = pair.1 := by
  obtain rfl | h := List.mem_cons.mp h
  · rfl
  · rw [List.mem_singleton.mp h]

theorem filter_halves (pairs : List (κ × α × β)) :
    (pairs.flatMap halves).filter (fun item => item.1 = key) =
      (pairs.filter (fun pair => pair.1 = key)).flatMap halves := by
  induction pairs with
  | nil => rfl
  | cons pair pairs ih =>
    rw [List.flatMap_cons, List.filter_append, ih]
    by_cases hkey : pair.1 = key
    · rw [List.filter_cons_of_pos (by simpa using hkey), List.flatMap_cons]
      congr 1
      apply List.filter_eq_self.mpr
      intro item hitem
      simpa using (mem_halves hitem).trans hkey
    · rw [List.filter_cons_of_neg (by simpa using hkey)]
      apply List.append_left_eq_self.mpr
      apply List.filter_eq_nil_iff.mpr
      intro item hitem
      simpa [mem_halves hitem] using hkey

theorem run_halves (pair : κ × α × β) {items : List (κ × (α ⊕ β))} (h : items.Perm (halves pair)) :
    run empty items = ([pair], empty) := by
  have hcache : ∀ held : Half α β, Function.update (Function.update empty pair.1 held) pair.1 (none, none) =
      (empty : Halves κ α β) := by
    intro held
    rw [Function.update_idem]
    exact Function.update_eq_self _ _
  obtain rfl | rfl := List.perm_pair.mp h
  · simp [run, step, put, release, empty, hcache]
  · simp [run, step, put, release, empty, hcache]

theorem filter_key_of_nodup (key : κ) {pairs : List (κ × α × β)} (hnodup : (pairs.map Prod.fst).Nodup) :
    pairs.filter (fun pair => pair.1 = key) = [] ∨
      ∃ pair, pair.1 = key ∧ pairs.filter (fun pair => pair.1 = key) = [pair] := by
  induction pairs with
  | nil => exact .inl rfl
  | cons pair pairs ih =>
    rw [List.map_cons, List.nodup_cons] at hnodup
    by_cases hkey : pair.1 = key
    · refine .inr ⟨pair, hkey, ?_⟩
      rw [List.filter_cons_of_pos (by simpa using hkey), List.cons_inj_right]
      apply List.filter_eq_nil_iff.mpr
      intro other hother
      have hne : other.1 ≠ key := by
        intro heq
        apply hnodup.1
        rw [hkey, ← heq]
        exact List.mem_map_of_mem hother
      simpa using hne
    · rw [List.filter_cons_of_neg (by simpa using hkey)]
      exact ih hnodup.2

/-- Whatever the order in which the halves come, the pairs leave whole and nothing stays behind. -/
theorem run_perm {pairs : List (κ × α × β)} (hnodup : (pairs.map Prod.fst).Nodup) {items : List (κ × (α ⊕ β))}
    (h : items.Perm (pairs.flatMap halves)) : (run empty items).1.Perm pairs ∧ (run empty items).2 = empty := by
  have hkey : ∀ key, (run empty items).1.filter (fun pair => pair.1 = key) = pairs.filter (fun pair => pair.1 = key) ∧
      (run empty items).2 key = empty key := by
    intro key
    have hsame : (empty : Halves κ α β) key = (empty : Halves κ α β) key := rfl
    obtain ⟨hpairs, hcache⟩ := run_filter items hsame
    have hperm := h.filter (fun item => item.1 = key)
    rw [filter_halves] at hperm
    rw [hpairs, hcache]
    obtain hnil | ⟨pair, rfl, hone⟩ := filter_key_of_nodup key hnodup
    · rw [hnil, List.flatMap_nil] at hperm
      rw [hnil, hperm.eq_nil]
      exact ⟨rfl, rfl⟩
    · rw [hone, List.flatMap_singleton] at hperm
      rw [hone, run_halves pair hperm]
      simp
  exact ⟨RoundRobin.perm_of_filter_eq Prod.fst _ _ (fun key => (hkey key).1), funext (fun key => (hkey key).2)⟩

end Awex.Pairing
