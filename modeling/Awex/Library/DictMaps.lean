import Awex.Library.Dict

namespace Awex.Dict

variable {κ ν ω β γ : Type}

theorem ext_entries {d d' : Dict κ ν} (h : d.entries = d'.entries) : d = d' := by
  cases d
  cases d'
  cases h
  rfl

variable [DecidableEq κ]

theorem setEntries_map (f : ν → ω) (k : κ) (v : ν) (es : List (κ × ν)) :
    (setEntries k v es).map (fun e => (e.1, f e.2)) = setEntries k (f v) (es.map fun e => (e.1, f e.2)) := by
  induction es with
  | nil => rfl
  | cons e es ih =>
    simp only [setEntries, List.map_cons]
    split_ifs with hk
    · rfl
    · rw [List.map_cons, ih]

theorem set_mapValues (f : ν → ω) (d : Dict κ ν) (k : κ) (v : ν) :
    (d.set k v).mapValues f = (d.mapValues f).set k (f v) :=
  ext_entries (setEntries_map f k v d.entries)

theorem ofList_map (f : ν → ω) (es : List (κ × ν)) :
    ofList (es.map fun e => (e.1, f e.2)) = (ofList es).mapValues f := by
  induction es using List.reverseRecOn with
  | nil => rfl
  | append_singleton es e ih =>
    simp only [ofList, List.map_append, List.foldl_append, List.map_cons, List.map_nil, List.foldl_cons,
      List.foldl_nil] at ih ⊢
    rw [set_mapValues, ← ih]

theorem push_mapValues (f : β → γ) (d : Dict κ (List β)) (k : κ) (x : β) :
    (d.push k x).mapValues (List.map f) = (d.mapValues (List.map f)).push k (f x) := by
  have hold : (d.mapValues (List.map f)).getD k [] = (d.getD k []).map f := by
    unfold getD
    rw [get?_mapValues]
    cases d.get? k <;> rfl
  unfold push
  rw [set_mapValues, hold, List.map_append]
  rfl

theorem groupBy_map (f : β → γ) (key : γ → κ) (xs : List β) :
    groupBy key (xs.map f) = (groupBy (fun x => key (f x)) xs).mapValues (List.map f) := by
  induction xs using List.reverseRecOn with
  | nil => rfl
  | append_singleton xs x ih =>
    rw [List.map_append, List.map_singleton, groupBy_append_singleton, groupBy_append_singleton, ih, push_mapValues]

omit [DecidableEq κ] in
theorem mapValues_mapValues {θ : Type} (d : Dict κ ν) (f : ν → ω) (g : ω → θ) :
    (d.mapValues f).mapValues g = d.mapValues fun v => g (f v) := by
  apply ext_entries
  simp [mapValues]

omit [DecidableEq κ] in
theorem keys_mapValues (d : Dict κ ν) (f : ν → ω) : (d.mapValues f).keys = d.keys := by
  simp [keys, mapValues]

omit [DecidableEq κ] in
theorem values_mapValues (d : Dict κ ν) (f : ν → ω) : (d.mapValues f).values = d.values.map f := by
  simp [values, mapValues]

theorem sortByKey_mapValues {κ : Type} [LinearOrder κ] (d : Dict κ ν) (f : ν → ω) :
    (d.mapValues f).sortByKey = d.sortByKey.mapValues f := by
  apply ext_entries
  symm
  apply List.map_insertionSort
  intro x _ y _
  rfl

end Awex.Dict
