import Awex.Library.Dict

namespace Awex.Dict

variable {κ β γ : Type} [DecidableEq κ]

def Rel (R : β → γ → Prop) (d : Dict κ (List β)) (d' : Dict κ (List γ)) : Prop :=
  ∀ p, List.Forall₂ R (d.getD p []) (d'.getD p [])

theorem Rel.empty (R : β → γ → Prop) : Rel R (Dict.empty : Dict κ (List β)) Dict.empty :=
  fun _ => .nil

theorem Rel.mono {R R' : β → γ → Prop} {d : Dict κ (List β)} {d' : Dict κ (List γ)}
    (h : Rel R d d') (hR : ∀ x y, R x y → R' x y) : Rel R' d d' :=
  fun p => (h p).imp hR

theorem Rel.set {R : β → γ → Prop} {d : Dict κ (List β)} {d' : Dict κ (List γ)}
    (h : Rel R d d') (k : κ) {xs : List β} {ys : List γ} (hxs : List.Forall₂ R xs ys) :
    Rel R (d.set k xs) (d'.set k ys) := by
  intro p
  have hp := h p
  simp only [Dict.getD, Dict.get?_set] at hp ⊢
  split_ifs with hk
  · exact hxs
  · exact hp

structure Collected (R : κ → List β → List γ → Prop) (done : List (κ × List β))
    (d : Dict κ (List γ)) : Prop where
  built : ∀ e ∈ done, R e.1 e.2 (d.getD e.1 [])
  others : ∀ p, p ∉ done.map Prod.fst → d.getD p [] = []

section Collected

variable {R R' : κ → List β → List γ → Prop} {done : List (κ × List β)} {d : Dict κ (List γ)}
  {e : κ × List β}

theorem Collected.nil (R : κ → List β → List γ → Prop) : Collected R [] Dict.empty :=
  ⟨by simp, fun _ _ => rfl⟩

theorem Collected.mono (h : Collected R done d) (hR : ∀ p xs ys, R p xs ys → R' p xs ys) :
    Collected R' done d := ⟨fun e he => hR _ _ _ (h.built e he), h.others⟩

theorem Collected.skip (h : Collected R done d) (hfresh : e.1 ∉ done.map Prod.fst) (he : R e.1 e.2 []) :
    Collected R (done ++ [e]) d := by
  constructor
  · intro e' he'
    rcases List.mem_append.mp he' with he' | he'
    · exact h.built e' he'
    · obtain rfl := List.mem_singleton.mp he'
      rwa [h.others _ hfresh]
  · intro p hp
    apply h.others p
    simp only [List.map_append, List.mem_append, not_or] at hp
    exact hp.1

theorem Collected.set (h : Collected R done d) (hfresh : e.1 ∉ done.map Prod.fst) {ys : List γ}
    (he : R e.1 e.2 ys) : Collected R (done ++ [e]) (d.set e.1 ys) := by
  have hget : ∀ p, (d.set e.1 ys).getD p [] = if e.1 = p then ys else d.getD p [] := by
    intro p
    simp only [Dict.getD, Dict.get?_set]
    split_ifs <;> rfl
  constructor
  · intro e' he'
    rw [hget]
    rcases List.mem_append.mp he' with he' | he'
    · have hne : ¬ e.1 = e'.1 := fun heq => hfresh (heq ▸ List.mem_map_of_mem he')
      rw [if_neg hne]
      exact h.built e' he'
    · obtain rfl := List.mem_singleton.mp he'
      rwa [if_pos rfl]
  · intro p hp
    simp only [List.map_append, List.map_cons, List.map_nil, List.mem_append, List.mem_singleton,
      not_or] at hp
    rw [hget, if_neg (Ne.symm hp.2), h.others p hp.1]

theorem Collected.getD {lists : Dict κ (List β)} (h : Collected R lists.entries d)
    (hnil : ∀ p, R p [] []) (p : κ) : R p (lists.getD p []) (d.getD p []) := by
  cases hp : lists.get? p with
  | none =>
    have hkey : p ∉ lists.entries.map Prod.fst := by
      rw [← Dict.keys, Dict.mem_keys, hp]
      simp
    rw [h.others p hkey, Dict.getD, hp]
    exact hnil p
  | some xs =>
    rw [Dict.getD, hp]
    exact h.built (p, xs) ((Dict.get?_eq_some _ _ _).mp hp)

end Collected

omit [DecidableEq κ] in
theorem fresh_of_split {ν : Type} (d : Dict κ ν) {done rest : List (κ × ν)} {e : κ × ν}
    (h : d.entries = done ++ e :: rest) : e.1 ∉ done.map Prod.fst := by
  have hn := d.nodup
  rw [h, List.map_append, List.map_cons, List.nodup_append] at hn
  exact fun hmem => hn.2.2 _ hmem _ List.mem_cons_self rfl

theorem flatMap_key (d : Dict κ (List β)) (k : κ) :
    d.entries.flatMap (fun e => if e.1 = k then e.2 else []) = d.getD k [] := by
  obtain ⟨es, hes⟩ := d
  simp only [Dict.getD, Dict.get?]
  induction es with
  | nil => rfl
  | cons e es ih =>
    obtain ⟨he, hes⟩ := List.nodup_cons.mp hes
    rw [List.flatMap_cons, ih hes, Dict.find?]
    split_ifs with hk
    · have hnone : Dict.find? k es = none := by
        rw [← Option.not_isSome_iff_eq_none, Dict.find?_isSome, ← hk]
        exact he
      rw [hnone]
      exact List.append_nil _
    · rfl

theorem get?_foldl_of {ν ω : Type} {step : Dict κ ν → ω → Dict κ ν} (Q : ω → κ → ν → Prop)
    (hstep : ∀ d x q v, (step d x).get? q = some v → d.get? q = some v ∨ Q x q v) (xs : List ω)
    (d : Dict κ ν) {q : κ} {v : ν} (h : (xs.foldl step d).get? q = some v) :
    d.get? q = some v ∨ ∃ x ∈ xs, Q x q v := by
  induction xs generalizing d with
  | nil => exact .inl h
  | cons x xs ih =>
    rcases ih _ h with hd | ⟨y, hy, hQ⟩
    · exact (hstep d x q v hd).imp_right (fun hQ => ⟨x, List.mem_cons_self, hQ⟩)
    · exact .inr ⟨y, List.mem_cons_of_mem _ hy, hQ⟩

theorem get?_foldl_keep {ν ω : Type} {step : Dict κ ν → ω → Dict κ ν} {q : κ} (xs : List ω)
    (hstep : ∀ x ∈ xs, ∀ d, (step d x).get? q = d.get? q) (d : Dict κ ν) :
    (xs.foldl step d).get? q = d.get? q := by
  induction xs generalizing d with
  | nil => rfl
  | cons x xs ih =>
    obtain ⟨hx, hxs⟩ := List.forall_mem_cons.mp hstep
    exact (ih hxs (step d x)).trans (hx d)

theorem get?_foldl_of_mem {ν ω : Type} {step : Dict κ ν → ω → Dict κ ν} {q : κ} {v : ν} {xs : List ω} {x : ω}
    (hn : xs.Nodup) (hx : x ∈ xs) (hset : ∀ d, (step d x).get? q = some v)
    (hkeep : ∀ y ∈ xs, y ≠ x → ∀ d, (step d y).get? q = d.get? q) (d : Dict κ ν) :
    (xs.foldl step d).get? q = some v := by
  obtain ⟨before, after, rfl⟩ := List.append_of_mem hx
  rw [List.foldl_append, List.foldl_cons, get?_foldl_keep, hset]
  intro y hy
  apply hkeep y (List.mem_append_right _ (List.mem_cons_of_mem _ hy))
  rintro rfl
  exact (List.nodup_cons.mp (List.nodup_append.mp hn).2.1).1 hy

theorem mem_getD {d : Dict κ (List β)} {k : κ} {x : β} : x ∈ d.getD k [] ↔ ∃ e ∈ d.entries, e.1 = k ∧ x ∈ e.2 := by
  rw [← flatMap_key, List.mem_flatMap]
  refine exists_congr fun e => and_congr_right fun _ => ?_
  split_ifs with hk
  · exact (and_iff_right hk).symm
  · exact iff_of_false List.not_mem_nil (fun h => hk h.1)

end Awex.Dict
