import Mathlib.Data.List.Induction
import Mathlib.Data.List.Nodup
import Mathlib.Logic.Function.Basic

namespace Awex.Store

variable {κ α : Type} [DecidableEq κ]

def write (cells : κ → α) (w : κ × α) : κ → α := Function.update cells w.1 w.2

def writeAll (cells : κ → α) (ws : List (κ × α)) : κ → α := ws.foldl write cells

/-- No address is written with two different values. -/
def Consistent (ws : List (κ × α)) : Prop := ∀ w ∈ ws, ∀ w' ∈ ws, w.1 = w'.1 → w.2 = w'.2

theorem writeAll_append (cells : κ → α) (ws ws' : List (κ × α)) :
    writeAll cells (ws ++ ws') = writeAll (writeAll cells ws) ws' := List.foldl_append

theorem writeAll_of_not_mem (cells : κ → α) (ws : List (κ × α)) (a : κ) (h : a ∉ ws.map Prod.fst) :
    writeAll cells ws a = cells a := by
  induction ws generalizing cells with
  | nil => rfl
  | cons w ws ih =>
    simp only [List.map_cons, List.mem_cons, not_or] at h
    exact (ih (write cells w) h.2).trans (Function.update_of_ne h.1 _ _)

theorem writeAll_congr_cells (cells cells' : κ → α) (ws : List (κ × α)) (a : κ) (h : cells a = cells' a) :
    writeAll cells ws a = writeAll cells' ws a := by
  induction ws generalizing cells cells' with
  | nil => exact h
  | cons w ws ih =>
    apply ih
    by_cases hw : a = w.1
    · simp only [write, hw, Function.update_self]
    · simp only [write, Function.update_of_ne hw, h]

theorem writeAll_of_mem (cells : κ → α) (ws : List (κ × α)) (h : Consistent ws) (w : κ × α)
    (hw : w ∈ ws) : writeAll cells ws w.1 = w.2 := by
  induction ws using List.reverseRecOn with
  | nil => simp at hw
  | append_singleton ws last ih =>
    rw [writeAll_append]
    change Function.update (writeAll cells ws) last.1 last.2 w.1 = w.2
    by_cases hl : w.1 = last.1
    · rw [hl, Function.update_self]
      exact (h w hw last (by simp) hl).symm
    · rw [Function.update_of_ne hl]
      apply ih (fun x hx y hy => h x (by simp [hx]) y (by simp [hy]))
      exact (List.mem_append.mp hw).resolve_right
        (fun hmem => hl (congrArg Prod.fst (List.mem_singleton.mp hmem)))

/-- Consistent writes may come in any order and any number of times. -/
theorem writeAll_congr (cells : κ → α) (ws ws' : List (κ × α)) (h : Consistent ws)
    (hmem : ∀ w, w ∈ ws ↔ w ∈ ws') : writeAll cells ws = writeAll cells ws' := by
  have h' : Consistent ws' := fun x hx y hy => h x ((hmem x).mpr hx) y ((hmem y).mpr hy)
  funext a
  by_cases ha : a ∈ ws.map Prod.fst
  · obtain ⟨w, hw, rfl⟩ := List.mem_map.mp ha
    rw [writeAll_of_mem cells ws h w hw, writeAll_of_mem cells ws' h' w ((hmem w).mp hw)]
  · rw [writeAll_of_not_mem cells ws a ha, writeAll_of_not_mem cells ws' a]
    intro ha'
    obtain ⟨w, hw, rfl⟩ := List.mem_map.mp ha'
    exact ha (List.mem_map.mpr ⟨w, (hmem w).mpr hw, rfl⟩)

omit [DecidableEq κ] in
theorem consistent_of_nodup (ws : List (κ × α)) (h : (ws.map Prod.fst).Nodup) : Consistent ws :=
  fun _ hw _ hw' heq => congrArg Prod.snd (List.inj_on_of_nodup_map h hw hw' heq)

theorem map_writeAll_of_subset (cells : κ → α) (ws : List (κ × α)) (h : Consistent ws) (as : List κ)
    (vs : List α) (hl : as.length = vs.length) (hsub : as.zip vs ⊆ ws) :
    as.map (writeAll cells ws) = vs := by
  apply List.ext_getElem (by simp [hl])
  intro i hi hv
  rw [List.getElem_map]
  have hi' : i < as.length := by simpa using hi
  exact writeAll_of_mem cells ws h (as[i], vs[i])
    (hsub (List.mem_iff_getElem.mpr ⟨i, by rw [List.length_zip]; exact Nat.lt_min.mpr ⟨hi', hv⟩, by simp⟩))

theorem map_writeAll_zip (cells : κ → α) (as : List κ) (vs : List α) (hn : as.Nodup)
    (hl : as.length = vs.length) : as.map (writeAll cells (as.zip vs)) = vs := by
  have hc : Consistent (as.zip vs) :=
    consistent_of_nodup _ (by rwa [List.map_fst_zip (Nat.le_of_eq hl)])
  exact map_writeAll_of_subset cells _ hc as vs hl (List.Subset.refl _)

end Awex.Store
