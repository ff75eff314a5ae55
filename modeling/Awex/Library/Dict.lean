import Mathlib.Data.List.Basic
import Mathlib.Data.List.Induction
import Mathlib.Data.List.Nodup
import Mathlib.Data.List.Sort

namespace Awex

/-- A finite map that remembers the order in which its keys were first inserted. -/
structure Dict (κ ν : Type) where
  entries : List (κ × ν)
  nodup : (entries.map Prod.fst).Nodup

namespace Dict

variable {κ ν β : Type} [DecidableEq κ]

def keys (d : Dict κ ν) : List κ := d.entries.map Prod.fst

def values (d : Dict κ ν) : List ν := d.entries.map Prod.snd

def empty : Dict κ ν := ⟨[], List.nodup_nil⟩

def find? (k : κ) : List (κ × ν) → Option ν
  | [] => none
  | e :: es => if e.1 = k then some e.2 else find? k es

def get? (d : Dict κ ν) (k : κ) : Option ν := find? k d.entries

def getD (d : Dict κ ν) (k : κ) (default : ν) : ν := (d.get? k).getD default

/-- Assignment keeps the position of a key that is already there. -/
def setEntries (k : κ) (v : ν) : List (κ × ν) → List (κ × ν)
  | [] => [(k, v)]
  | e :: es => if e.1 = k then (k, v) :: es else e :: setEntries k v es

theorem mem_keys_setEntries (k q : κ) (v : ν) (es : List (κ × ν)) :
    q ∈ (setEntries k v es).map Prod.fst ↔ q = k ∨ q ∈ es.map Prod.fst := by
  induction es with
  | nil => simp [setEntries]
  | cons e es ih =>
    by_cases h : e.1 = k
    · simp [setEntries, h]
    · simp only [setEntries, h, ↓reduceIte, List.map_cons, List.mem_cons, ih]
      exact or_left_comm

theorem nodup_setEntries (k : κ) (v : ν) (es : List (κ × ν)) (h : (es.map Prod.fst).Nodup) :
    ((setEntries k v es).map Prod.fst).Nodup := by
  induction es with
  | nil => simp [setEntries]
  | cons e es ih =>
    obtain ⟨he, hes⟩ := List.nodup_cons.mp h
    by_cases hk : e.1 = k
    · simp only [setEntries, hk, ↓reduceIte, List.map_cons]
      exact List.nodup_cons.mpr ⟨hk ▸ he, hes⟩
    · simp only [setEntries, hk, ↓reduceIte, List.map_cons]
      refine List.nodup_cons.mpr ⟨?_, ih hes⟩
      rw [mem_keys_setEntries]
      exact not_or.mpr ⟨hk, he⟩

def set (d : Dict κ ν) (k : κ) (v : ν) : Dict κ ν :=
  ⟨setEntries k v d.entries, nodup_setEntries k v d.entries d.nodup⟩

def ofList (es : List (κ × ν)) : Dict κ ν := es.foldl (fun d e => d.set e.1 e.2) empty

/-- `d.setdefault(k, []).append(x)`. -/
def push (d : Dict κ (List β)) (k : κ) (x : β) : Dict κ (List β) := d.set k (d.getD k [] ++ [x])

def groupBy (key : β → κ) (xs : List β) : Dict κ (List β) :=
  xs.foldl (fun d x => d.push (key x) x) empty

theorem find?_setEntries (k q : κ) (v : ν) (es : List (κ × ν)) :
    find? q (setEntries k v es) = if k = q then some v else find? q es := by
  induction es with
  | nil => simp [setEntries, find?]
  | cons e es ih =>
    by_cases h : e.1 = k
    · subst h
      by_cases hq : e.1 = q <;> simp [setEntries, find?, hq]
    · by_cases hq : e.1 = q
      · have hkq : k ≠ q := fun hkq => h (hq.trans hkq.symm)
        have hqk : q ≠ k := Ne.symm hkq
        simp [setEntries, find?, hq, hkq, hqk]
      · simp [setEntries, find?, h, hq, ih]

@[simp] theorem get?_empty (q : κ) : (empty : Dict κ ν).get? q = none := rfl

theorem get?_set (d : Dict κ ν) (k q : κ) (v : ν) :
    (d.set k v).get? q = if k = q then some v else d.get? q := find?_setEntries k q v d.entries

theorem mem_keys_set (d : Dict κ ν) (k q : κ) (v : ν) : q ∈ (d.set k v).keys ↔ q = k ∨ q ∈ d.keys :=
  mem_keys_setEntries k q v d.entries

theorem mem_keys_foldl_set (es : List (κ × ν)) (d : Dict κ ν) (q : κ) :
    q ∈ (es.foldl (fun d e => d.set e.1 e.2) d).keys ↔ q ∈ d.keys ∨ q ∈ es.map Prod.fst := by
  induction es generalizing d with
  | nil => simp
  | cons e es ih =>
    rw [List.foldl_cons, ih, mem_keys_set, List.map_cons, List.mem_cons]
    tauto

theorem mem_keys_ofList (es : List (κ × ν)) (q : κ) : q ∈ (ofList es).keys ↔ q ∈ es.map Prod.fst := by
  rw [ofList, mem_keys_foldl_set]
  simp [keys, empty]

theorem find?_isSome (k : κ) (es : List (κ × ν)) : (find? k es).isSome ↔ k ∈ es.map Prod.fst := by
  induction es with
  | nil => simp [find?]
  | cons e es ih =>
    by_cases h : e.1 = k
    · simp [find?, h]
    · simp only [find?, h, ↓reduceIte, ih, List.map_cons, List.mem_cons]
      exact (or_iff_right (Ne.symm h)).symm

theorem mem_keys (d : Dict κ ν) (k : κ) : k ∈ d.keys ↔ (d.get? k).isSome :=
  (find?_isSome k d.entries).symm

theorem find?_eq_some (k : κ) (v : ν) (es : List (κ × ν)) (h : (es.map Prod.fst).Nodup) :
    find? k es = some v ↔ (k, v) ∈ es := by
  induction es with
  | nil => simp [find?]
  | cons e es ih =>
    obtain ⟨he, hes⟩ := List.nodup_cons.mp h
    obtain ⟨q, w⟩ := e
    by_cases hk : q = k
    · subst hk
      have hn : (q, v) ∉ es := fun hm => he (List.mem_map.mpr ⟨_, hm, rfl⟩)
      simp [find?, hn, eq_comm]
    · simp [find?, hk, ih hes, Ne.symm hk]

theorem get?_eq_some (d : Dict κ ν) (k : κ) (v : ν) : d.get? k = some v ↔ (k, v) ∈ d.entries :=
  find?_eq_some k v d.entries d.nodup

theorem mem_of_get?_foldl_set (es : List (κ × ν)) (d : Dict κ ν) (q : κ) (v : ν)
    (h : (es.foldl (fun d e => d.set e.1 e.2) d).get? q = some v) : d.get? q = some v ∨ (q, v) ∈ es := by
  induction es generalizing d with
  | nil => exact .inl h
  | cons e es ih =>
    obtain ⟨k, w⟩ := e
    rcases ih _ h with hd | hes
    · rw [get?_set] at hd
      split_ifs at hd with hk
      · obtain rfl := Option.some.inj hd
        obtain rfl : k = q := hk
        exact .inr List.mem_cons_self
      · exact .inl hd
    · exact .inr (List.mem_cons_of_mem _ hes)

theorem mem_of_get?_ofList (es : List (κ × ν)) (q : κ) (v : ν) (h : (ofList es).get? q = some v) :
    (q, v) ∈ es :=
  (mem_of_get?_foldl_set es empty q v h).resolve_left (by simp)

theorem get?_foldl_set_of_not_mem (es : List (κ × ν)) (d : Dict κ ν) (q : κ)
    (h : q ∉ es.map Prod.fst) : (es.foldl (fun d e => d.set e.1 e.2) d).get? q = d.get? q := by
  induction es generalizing d with
  | nil => rfl
  | cons e es ih =>
    obtain ⟨he, hes⟩ := not_or.mp (List.mem_cons.not.mp h)
    rw [List.foldl_cons, ih _ hes, get?_set, if_neg (Ne.symm he)]

theorem get?_foldl_set_of_nodup (es : List (κ × ν)) (hn : (es.map Prod.fst).Nodup) (d : Dict κ ν)
    (k : κ) (v : ν) (h : (k, v) ∈ es) :
    (es.foldl (fun d e => d.set e.1 e.2) d).get? k = some v := by
  induction es generalizing d with
  | nil => simp at h
  | cons e es ih =>
    obtain ⟨he, hn⟩ := List.nodup_cons.mp hn
    rw [List.foldl_cons]
    rcases List.mem_cons.mp h with rfl | h
    · rw [get?_foldl_set_of_not_mem _ _ _ he, get?_set, if_pos rfl]
    · exact ih hn _ h

theorem get?_ofList_of_nodup (es : List (κ × ν)) (hn : (es.map Prod.fst).Nodup) (k : κ) (v : ν)
    (h : (k, v) ∈ es) : (ofList es).get? k = some v := get?_foldl_set_of_nodup es hn empty k v h

theorem setEntries_of_not_mem {k : κ} {es : List (κ × ν)} (h : k ∉ es.map Prod.fst) (v : ν) :
    setEntries k v es = es ++ [(k, v)] := by
  induction es with
  | nil => rfl
  | cons e es ih =>
    obtain ⟨he, hes⟩ := not_or.mp (List.mem_cons.not.mp h)
    rw [setEntries, if_neg (Ne.symm he), ih hes, List.cons_append]

theorem entries_foldl_set (es : List (κ × ν)) (d : Dict κ ν)
    (h : ((d.entries ++ es).map Prod.fst).Nodup) :
    (es.foldl (fun d e => d.set e.1 e.2) d).entries = d.entries ++ es := by
  induction es generalizing d with
  | nil => simp
  | cons e es ih =>
    have hfresh : e.1 ∉ d.entries.map Prod.fst := by
      rw [List.map_append, List.map_cons, List.nodup_append] at h
      exact fun hmem => h.2.2 e.1 hmem e.1 List.mem_cons_self rfl
    have hset : (d.set e.1 e.2).entries = d.entries ++ [e] := setEntries_of_not_mem hfresh e.2
    rw [List.foldl_cons, ih, hset, List.append_assoc, List.singleton_append]
    rw [hset, List.append_assoc, List.singleton_append]
    exact h

theorem entries_ofList {es : List (κ × ν)} (hn : (es.map Prod.fst).Nodup) : (ofList es).entries = es :=
  entries_foldl_set es empty hn

theorem values_eq (d : Dict κ ν) (default : ν) : d.values = d.keys.map (fun k => d.getD k default) := by
  rw [values, keys, List.map_map]
  apply List.map_congr_left
  intro e he
  rw [Function.comp_apply, getD, (get?_eq_some d e.1 e.2).mpr he, Option.getD_some]

theorem get?_push (d : Dict κ (List β)) (k q : κ) (x : β) :
    (d.push k x).get? q = if k = q then some (d.getD q [] ++ [x]) else d.get? q := by
  rw [push, get?_set]
  by_cases h : k = q <;> simp [h]

theorem groupBy_append_singleton (key : β → κ) (xs : List β) (x : β) :
    groupBy key (xs ++ [x]) = (groupBy key xs).push (key x) x := by simp [groupBy]

theorem get?_groupBy (key : β → κ) (xs : List β) (k : κ) :
    (groupBy key xs).get? k =
      if k ∈ xs.map key then some (xs.filter (fun x => key x = k)) else none := by
  induction xs using List.reverseRecOn with
  | nil => rfl
  | append_singleton xs x ih =>
    rw [groupBy_append_singleton, get?_push]
    by_cases h : key x = k
    · have hd : (groupBy key xs).getD k [] = xs.filter (fun x => key x = k) := by
        rw [getD, ih]
        split_ifs with hm
        · rfl
        · have hnil : xs.filter (fun x => key x = k) = [] := by
            apply List.filter_eq_nil_iff.mpr
            intro y hy
            simp only [decide_eq_true_eq]
            rintro rfl
            exact hm (List.mem_map_of_mem hy)
          rw [hnil]
          rfl
      simp [h, hd, List.filter_append]
    · have hm : k ∈ (xs ++ [x]).map key ↔ k ∈ xs.map key := by simp [Ne.symm h]
      simp only [h, ↓reduceIte, ih, hm]
      simp [h, List.filter_append]

theorem getD_groupBy (key : β → κ) (xs : List β) (k : κ) :
    (groupBy key xs).getD k [] = xs.filter (fun x => key x = k) := by
  rw [getD, get?_groupBy]
  split_ifs with hm
  · rfl
  · symm
    apply List.filter_eq_nil_iff.mpr
    intro y hy
    simp only [decide_eq_true_eq]
    rintro rfl
    exact hm (List.mem_map_of_mem hy)

theorem mem_keys_groupBy (key : β → κ) (xs : List β) (k : κ) :
    k ∈ (groupBy key xs).keys ↔ k ∈ xs.map key := by
  rw [mem_keys, get?_groupBy]
  split_ifs with h <;> simp [h]

def mapValues {ω : Type} (d : Dict κ ν) (f : ν → ω) : Dict κ ω :=
  ⟨d.entries.map (fun e => (e.1, f e.2)), by simpa [Function.comp_def] using d.nodup⟩

theorem get?_mapValues {ω : Type} (d : Dict κ ν) (f : ν → ω) (k : κ) :
    (d.mapValues f).get? k = (d.get? k).map f := by
  obtain ⟨es, hes⟩ := d
  simp only [get?, mapValues]
  clear hes
  induction es with
  | nil => rfl
  | cons e es ih => by_cases h : e.1 = k <;> simp [find?, h, ih]

theorem setEntries_setEntries (k : κ) (v w : ν) (es : List (κ × ν)) :
    setEntries k w (setEntries k v es) = setEntries k w es := by
  induction es with
  | nil => simp [setEntries]
  | cons e es ih => by_cases h : e.1 = k <;> simp [setEntries, h, ih]

@[simp] theorem set_set (d : Dict κ ν) (k : κ) (v w : ν) : (d.set k v).set k w = d.set k w := by
  simp only [set, setEntries_setEntries]

/-- `del d[k]`. -/
def erase (d : Dict κ ν) (k : κ) : Dict κ ν :=
  ⟨d.entries.filter (fun e => e.1 ≠ k), d.nodup.sublist (List.filter_sublist.map Prod.fst)⟩

theorem get?_erase (d : Dict κ ν) (k q : κ) : (d.erase k).get? q = if k = q then none else d.get? q := by
  obtain ⟨es, hes⟩ := d
  simp only [get?, erase]
  clear hes
  induction es with
  | nil => simp [find?]
  | cons e es ih =>
    by_cases hk : e.1 = k
    · rw [List.filter_cons_of_neg (by simpa using hk), ih, find?]
      by_cases hq : k = q <;> simp [hk, hq]
    · rw [List.filter_cons_of_pos (by simpa using hk), find?, find?, ih]
      by_cases hq : k = q
      · simp [← hq, hk]
      · simp [hq]

section Sorted

variable {κ : Type} [LinearOrder κ]

def sortByKey (d : Dict κ ν) : Dict κ ν :=
  ⟨d.entries.insertionSort (fun x y => x.1 ≤ y.1),
    (((d.entries.perm_insertionSort _).map Prod.fst).nodup_iff).mpr d.nodup⟩

theorem mem_entries_sortByKey (d : Dict κ ν) (e : κ × ν) : e ∈ d.sortByKey.entries ↔ e ∈ d.entries :=
  (d.entries.perm_insertionSort _).mem_iff

theorem get?_sortByKey (d : Dict κ ν) (k : κ) : d.sortByKey.get? k = d.get? k := by
  apply Option.ext
  intro v
  rw [get?_eq_some, get?_eq_some, mem_entries_sortByKey]

end Sorted

end Dict

end Awex
