import Mathlib.Data.List.Induction
import Mathlib.Data.List.Nodup
import Mathlib.Order.Lattice

namespace Awex.Placement

variable {α β : Type}

theorem flatMap_filter_perm [DecidableEq β] (key : α → β) {ks : List β} (hks : ks.Nodup) {xs : List α}
    (h : ∀ x ∈ xs, key x ∈ ks) : (ks.flatMap (fun k => xs.filter (fun x => key x = k))).Perm xs := by
  induction ks generalizing xs with
  | nil =>
    have hnil : xs = [] := List.eq_nil_iff_forall_not_mem.mpr (fun x hx => List.not_mem_nil (h x hx))
    rw [hnil]
    exact .nil
  | cons k ks ih =>
    obtain ⟨hk, hks⟩ := List.nodup_cons.mp hks
    have hother : ∀ k' ∈ ks, xs.filter (fun x => key x = k') =
        (xs.filter (fun x => !decide (key x = k))).filter (fun x => key x = k') := by
      intro k' hk'
      rw [List.filter_filter]
      apply List.filter_congr
      intro x _
      have hne : k' ≠ k := fun heq => hk (heq ▸ hk')
      by_cases hx : key x = k' <;> simp [hx, hne]
    rw [List.flatMap_cons, List.flatMap_congr hother]
    have hrest := @ih hks (xs.filter (fun x => !decide (key x = k))) (by
      intro x hx
      obtain ⟨hx, hne⟩ := List.mem_filter.mp hx
      exact (List.mem_cons.mp (h x hx)).resolve_left (by simpa using hne))
    exact (hrest.append_left _).trans (List.filter_append_perm _ xs)

theorem foldr_max_lt {xs : List ℕ} {n : ℕ} (hn : 0 < n) (h : ∀ x ∈ xs, x < n) : xs.foldr max 0 < n := by
  induction xs with
  | nil => exact hn
  | cons x xs ih =>
    obtain ⟨hx, hxs⟩ := List.forall_mem_cons.mp h
    exact max_lt hx (ih hxs)

theorem length_foldl_set (ws : List (α × ℕ)) (result : List (Option α)) :
    (ws.foldl (fun r w => r.set w.2 (some w.1)) result).length = result.length := by
  induction ws generalizing result with
  | nil => rfl
  | cons w ws ih => rw [List.foldl_cons, ih, List.length_set]

theorem getElem?_foldl_set {ws : List (α × ℕ)} (hn : (ws.map Prod.snd).Nodup) {w : α × ℕ} (hw : w ∈ ws)
    (result : List (Option α)) (hlt : w.2 < result.length) :
    (ws.foldl (fun r w => r.set w.2 (some w.1)) result)[w.2]? = some (some w.1) := by
  induction ws using List.reverseRecOn with
  | nil => exact absurd hw List.not_mem_nil
  | append_singleton ws last ih =>
    rw [List.map_append, List.nodup_append] at hn
    rw [List.foldl_append, List.foldl_cons, List.foldl_nil]
    rcases List.mem_append.mp hw with hmem | hlast
    · have hne : last.2 ≠ w.2 := by
        intro heq
        exact hn.2.2 w.2 (List.mem_map_of_mem hmem) last.2 (by simp) heq.symm
      rw [List.getElem?_set_ne hne, ih hn.1 hmem]
    · obtain rfl := List.mem_singleton.mp hlast
      rw [List.getElem?_set_self (by rwa [length_foldl_set])]

theorem foldl_set_zipIdx {xs : List α} {ws : List (α × ℕ)} (h : ws.Perm xs.zipIdx) :
    ws.foldl (fun r w => r.set w.2 (some w.1)) (List.replicate xs.length none) = xs.map some := by
  have hn : (ws.map Prod.snd).Nodup := by
    rw [(h.map Prod.snd).nodup_iff, List.zipIdx_map_snd]
    exact List.nodup_range'
  apply List.ext_getElem
  · rw [length_foldl_set, List.length_replicate, List.length_map]
  · intro i hi hi'
    have hlt : i < xs.length := by rwa [List.length_map] at hi'
    have hmem : (xs[i], i) ∈ ws := h.mem_iff.mpr (List.mk_mem_zipIdx_iff_getElem?.mpr (List.getElem?_eq_getElem hlt))
    have hget := getElem?_foldl_set hn hmem (List.replicate xs.length none) (by simpa using hlt)
    rw [List.getElem?_eq_getElem hi] at hget
    rw [Option.some.inj hget, List.getElem_map]

end Awex.Placement
