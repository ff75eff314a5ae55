import Awex.Library.Dict

namespace Awex.Dict

variable {κ ν : Type} [DecidableEq κ] {p : κ → Prop} [DecidablePred p] {d full : Dict κ ν}

/-- `d` is what `full` has under the keys that satisfy `p`. -/
def Restriction (p : κ → Prop) [DecidablePred p] (d full : Dict κ ν) : Prop :=
  ∀ k, d.get? k = if p k then full.get? k else none

theorem Restriction.empty : Restriction p (Dict.empty : Dict κ ν) Dict.empty := by
  intro k
  rw [get?_empty, ite_self]

theorem Restriction.set (h : Restriction p d full) {k : κ} (hk : p k) (v : ν) :
    Restriction p (d.set k v) (full.set k v) := by
  intro q
  rw [get?_set, get?_set, h q]
  split_ifs with hq hp
  · rfl
  · exact absurd (hq ▸ hk) hp
  · rfl
  · rfl

theorem Restriction.skip (h : Restriction p d full) {k : κ} (hk : ¬ p k) (v : ν) :
    Restriction p d (full.set k v) := by
  intro q
  rw [get?_set, h q]
  split_ifs with hp hq
  · exact absurd (hq ▸ hp) hk
  · rfl
  · rfl

theorem Restriction.foldl (h : Restriction p d full) (es : List (κ × ν)) :
    Restriction p (es.foldl (fun d e => if p e.1 then d.set e.1 e.2 else d) d)
      (es.foldl (fun d e => d.set e.1 e.2) full) := by
  induction es generalizing d full with
  | nil => exact h
  | cons e es ih =>
    rw [List.foldl_cons, List.foldl_cons]
    apply ih
    split_ifs with he
    · exact h.set he e.2
    · exact h.skip he e.2

theorem Restriction.mem_keys (h : Restriction p d full) (k : κ) : k ∈ d.keys ↔ p k ∧ k ∈ full.keys := by
  rw [Dict.mem_keys, Dict.mem_keys, h k]
  split_ifs with hp
  · exact (and_iff_right hp).symm
  · exact iff_of_false (by simp) (fun hk => hp hk.1)

end Awex.Dict
