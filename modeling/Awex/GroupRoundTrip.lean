import Awex.Library.ExceptList
import Awex.Library.Lists
import Awex.Library.Placement
import Awex.TensorGroups
import Mathlib.Algebra.BigOperators.Ring.List
import Mathlib.Algebra.GroupWithZero.Nat
import Mathlib.Data.List.Perm.Basic

namespace Awex

variable {δ α : Type}

structure Chunk (entries : List (DenseTensor δ α × ℕ)) : Prop where
  nonempty : entries ≠ []
  alike : ∀ e ∈ entries, ∀ e' ∈ entries, e.1.shape = e'.1.shape ∧ e.1.dtype = e'.1.dtype
  dimensional : ∀ e ∈ entries, e.1.shape ≠ []
  inhabited : ∀ e ∈ entries, 0 ∉ e.1.shape

def layoutItems (start : ℕ) (chunks : List (List (DenseTensor δ α × ℕ))) : List (GroupItem δ) :=
  (chunks.zipIdx start).flatMap (fun (chunk, groupIndex) => groupItems groupIndex 0 chunk)

structure LaidOut [DecidableEq δ] (state : GroupState δ α) (chunks : List (List (DenseTensor δ α × ℕ))) : Prop where
  groups : List.Forall₂ (fun chunk group => DenseTensor.cat (chunk.map Prod.fst) = .ok group) chunks
    state.finalTensorGroups
  metadata : state.metadata = layoutItems 0 chunks
  chunk : ∀ chunk ∈ chunks, Chunk chunk

section Items

theorem map_originalIndex_groupItems (groupIndex offset : ℕ) (chunk : List (DenseTensor δ α × ℕ)) :
    (groupItems groupIndex offset chunk).map GroupItem.originalIndex = chunk.map Prod.snd := by
  induction chunk generalizing offset with
  | nil => rfl
  | cons e chunk ih => rw [groupItems, List.map_cons, ih, List.map_cons]

theorem groupIndex_of_mem_groupItems {groupIndex offset : ℕ} {chunk : List (DenseTensor δ α × ℕ)}
    {item : GroupItem δ} (h : item ∈ groupItems groupIndex offset chunk) : item.groupIndex = groupIndex := by
  induction chunk generalizing offset with
  | nil => exact absurd h List.not_mem_nil
  | cons e chunk ih =>
    rw [groupItems, List.mem_cons] at h
    obtain rfl | h := h
    · rfl
    · exact ih h

theorem flatMap_range_groupItems (groupIndex offset : ℕ) (chunk : List (DenseTensor δ α × ℕ)) :
    (groupItems groupIndex offset chunk).flatMap (fun item => List.range' item.offset item.size) =
      List.range' offset (chunk.flatMap (fun e => e.1.values)).length := by
  induction chunk generalizing offset with
  | nil => rfl
  | cons e chunk ih =>
    rw [groupItems, List.flatMap_cons, ih, List.flatMap_cons, List.length_append, DenseTensor.numel,
      List.range'_append_1]

theorem map_originalIndex_layoutItems (start : ℕ) (chunks : List (List (DenseTensor δ α × ℕ))) :
    (layoutItems start chunks).map GroupItem.originalIndex = chunks.flatten.map Prod.snd := by
  induction chunks generalizing start with
  | nil => rfl
  | cons chunk chunks ih =>
    rw [layoutItems, List.zipIdx_cons, List.flatMap_cons, List.map_append, map_originalIndex_groupItems,
      List.flatten_cons, List.map_append, ← ih (start + 1)]
    rfl

theorem filter_groupItems_ne {groupIndex g offset : ℕ} (h : groupIndex ≠ g) (chunk : List (DenseTensor δ α × ℕ)) :
    (groupItems groupIndex offset chunk).filter (fun item => item.groupIndex = g) = [] := by
  apply List.filter_eq_nil_iff.mpr
  intro item hitem
  simpa [groupIndex_of_mem_groupItems hitem] using h

theorem filter_groupItems_eq (groupIndex offset : ℕ) (chunk : List (DenseTensor δ α × ℕ)) :
    (groupItems groupIndex offset chunk).filter (fun item => item.groupIndex = groupIndex) =
      groupItems groupIndex offset chunk := by
  apply List.filter_eq_self.mpr
  intro item hitem
  simpa using groupIndex_of_mem_groupItems hitem

theorem filter_layoutItems_lt {start g : ℕ} (h : g < start) (chunks : List (List (DenseTensor δ α × ℕ))) :
    (layoutItems start chunks).filter (fun item => item.groupIndex = g) = [] := by
  induction chunks generalizing start with
  | nil => rfl
  | cons chunk chunks ih =>
    rw [layoutItems, List.zipIdx_cons, List.flatMap_cons, List.filter_append, filter_groupItems_ne (Nat.ne_of_gt h),
      List.nil_append]
    exact ih (Nat.lt_succ_of_lt h)

theorem filter_layoutItems (start : ℕ) {i : ℕ} {chunks : List (List (DenseTensor δ α × ℕ))}
    {chunk : List (DenseTensor δ α × ℕ)} (h : chunks[i]? = some chunk) :
    (layoutItems start chunks).filter (fun item => item.groupIndex = start + i) = groupItems (start + i) 0 chunk := by
  induction chunks generalizing start i with
  | nil => cases h
  | cons first chunks ih =>
    rw [layoutItems, List.zipIdx_cons, List.flatMap_cons, List.filter_append]
    cases i with
    | zero =>
      obtain rfl := Option.some.inj h
      have hrest := filter_layoutItems_lt (Nat.lt_succ_self start) chunks
      rw [Nat.add_zero, filter_groupItems_eq]
      exact (congrArg _ hrest).trans (List.append_nil _)
    | succ i =>
      have hrest : (layoutItems (start + 1) chunks).filter (fun item => item.groupIndex = start + 1 + i) =
          groupItems (start + 1 + i) 0 chunk := ih (start + 1) h
      rw [filter_groupItems_ne (by omega), List.nil_append]
      rw [show start + (i + 1) = start + 1 + i by omega]
      exact hrest

end Items

def placeAll (resultTensors : List (Option (DenseTensor δ α))) (entries : List (DenseTensor δ α × ℕ)) :
    List (Option (DenseTensor δ α)) :=
  entries.foldl (fun result e => result.set e.2 (some e.1.contiguous)) resultTensors

/-- The dimensions of more than one element lie as in a contiguous tensor. -/
def DenseTensor.Viewable (t : DenseTensor δ α) : Prop := viewStride (t.dims.filter (·.size ≠ 1)) = some 1

section Place

theorem DenseTensor.viewSlice_eq {group t : DenseTensor δ α} {before after : List α}
    (hview : group.Viewable)
    (hvalues : group.values = before ++ (t.values ++ after)) (hdtype : t.dtype = group.dtype) :
    group.viewSlice before.length (before.length + t.numel) t.shape = .ok t.contiguous := by
  have hslice : (group.values.take (before.length + t.numel)).drop before.length = t.values := by
    rw [hvalues, numel, List.take_length_add_append, List.drop_left, List.take_left]
  have hlength : ((group.values.take (before.length + t.numel)).drop before.length).length = t.shape.prod := by
    rw [hslice]
    exact t.numel_eq
  unfold viewSlice
  rw [Viewable] at hview
  simp only [hview, Nat.mul_one]
  rw [dif_pos hlength, Except.ok.injEq]
  exact DenseTensor.ext (List.map_id _) hdtype.symm hslice

theorem placeItems_eq {group : DenseTensor δ α} (hview : group.Viewable)
    (groupIndex : ℕ) (before : List α) {chunk : List (DenseTensor δ α × ℕ)}
    (hvalues : group.values = before ++ chunk.flatMap (fun e => e.1.values))
    (hdtype : ∀ e ∈ chunk, e.1.dtype = group.dtype) (resultTensors : List (Option (DenseTensor δ α))) :
    (groupItems groupIndex before.length chunk).foldlM (placeItem group) resultTensors =
      .ok (placeAll resultTensors chunk) := by
  induction chunk generalizing before resultTensors with
  | nil => rfl
  | cons e chunk ih =>
    obtain ⟨hd, hdtype⟩ := List.forall_mem_cons.mp hdtype
    rw [List.flatMap_cons] at hvalues
    have hrest : group.values = (before ++ e.1.values) ++ chunk.flatMap (fun e => e.1.values) := by
      rw [hvalues, List.append_assoc]
    rw [groupItems, List.foldlM_cons, placeItem, DenseTensor.viewSlice_eq hview hvalues hd, Except.ok_bind,
      Except.ok_bind]
    have htail := ih (before ++ e.1.values) hrest hdtype (resultTensors.set e.2 (some e.1.contiguous))
    rw [List.length_append] at htail
    exact htail

variable [DecidableEq δ]

theorem DenseTensor.cat_spec {tensors : List (DenseTensor δ α)} {group : DenseTensor δ α}
    (h : cat tensors = .ok group) :
    group.values = tensors.flatMap values ∧ ∀ t ∈ tensors, t.dtype = group.dtype := by
  unfold cat at h
  split at h
  · cases h
  · split at h
    · cases h
    · split_ifs at h with hall
      obtain rfl := Except.ok.inj h
      exact ⟨rfl, fun t ht => (hall t ht).2⟩

theorem DenseTensor.shape_ne_nil_of_cat {tensors : List (DenseTensor δ α)} {group : DenseTensor δ α}
    (h : cat tensors = .ok group) {t : DenseTensor δ α} (ht : t ∈ tensors) : t.shape ≠ [] := by
  unfold cat at h
  split at h
  · cases h
  · split at h
    · cases h
    · split_ifs at h with hall
      rw [(hall t ht).1]
      exact List.cons_ne_nil _ _

theorem DenseTensor.exists_cat {entries : List (DenseTensor δ α × ℕ)} (hne : entries ≠ [])
    (halike : ∀ e ∈ entries, ∀ e' ∈ entries, e.1.shape = e'.1.shape ∧ e.1.dtype = e'.1.dtype)
    (hdim : ∀ e ∈ entries, e.1.shape ≠ []) : ∃ group, cat (entries.map Prod.fst) = .ok group := by
  obtain ⟨first, rest, rfl⟩ := List.exists_cons_of_ne_nil hne
  obtain ⟨n, inner, hshape⟩ := List.exists_cons_of_ne_nil (hdim first List.mem_cons_self)
  have hall : ∀ t ∈ first.1 :: rest.map Prod.fst, t.shape = t.shape.headD 0 :: inner ∧ t.dtype = first.1.dtype := by
    intro t ht
    obtain ⟨e, he, rfl⟩ : ∃ e ∈ first :: rest, e.1 = t := List.mem_map.mp (by simpa using ht)
    obtain ⟨hs, hd⟩ := halike e he first List.mem_cons_self
    rw [hs, hshape]
    exact ⟨rfl, hd⟩
  rw [List.map_cons, cat]
  simp only [hshape]
  rw [dif_pos hall]
  exact ⟨_, rfl⟩

theorem Chunk.exists_cat {entries : List (DenseTensor δ α × ℕ)} (h : Chunk entries) :
    ∃ group, DenseTensor.cat (entries.map Prod.fst) = .ok group :=
  DenseTensor.exists_cat h.nonempty h.alike h.dimensional

theorem Chunk.numel_ne_zero {entries : List (DenseTensor δ α × ℕ)} (h : Chunk entries) {group : DenseTensor δ α}
    (hcat : DenseTensor.cat (entries.map Prod.fst) = .ok group) : group.numel ≠ 0 := by
  obtain ⟨first, rest, rfl⟩ := List.exists_cons_of_ne_nil h.nonempty
  have hfirst := h.inhabited first List.mem_cons_self
  have hpos : first.1.values.length ≠ 0 := by
    rw [first.1.length_values]
    apply List.prod_ne_zero
    exact hfirst
  rw [DenseTensor.numel, (DenseTensor.cat_spec hcat).1, List.map_cons, List.flatMap_cons, List.length_append]
  omega

end Place

section Reconstruct

variable [DecidableEq δ]

omit [DecidableEq δ] in
theorem placeAll_append (resultTensors : List (Option (DenseTensor δ α))) (xs ys : List (DenseTensor δ α × ℕ)) :
    placeAll resultTensors (xs ++ ys) = placeAll (placeAll resultTensors xs) ys := List.foldl_append

theorem placeGroups_eq (groupMetadata : Dict ℕ (List (GroupItem δ))) {chunks : List (List (DenseTensor δ α × ℕ))}
    {groups : List (DenseTensor δ α)}
    (hgroups : List.Forall₂ (fun chunk group => DenseTensor.cat (chunk.map Prod.fst) = .ok group) chunks groups)
    (hchunk : ∀ chunk ∈ chunks, Chunk chunk) (hview : ∀ group ∈ groups, group.Viewable) (start : ℕ)
    (hmetadata : ∀ i chunk, chunks[i]? = some chunk →
      groupMetadata.get? (start + i) = some (groupItems (start + i) 0 chunk))
    (resultTensors : List (Option (DenseTensor δ α))) :
    (groups.zipIdx start).foldlM (placeGroup groupMetadata) resultTensors =
      .ok (placeAll resultTensors chunks.flatten) := by
  induction hgroups generalizing start resultTensors with
  | nil => rfl
  | @cons chunk group chunks groups hcat _ ih =>
    obtain ⟨hc, hchunk⟩ := List.forall_mem_cons.mp hchunk
    obtain ⟨hv, hview⟩ := List.forall_mem_cons.mp hview
    have hitems : groupMetadata.get? start = some (groupItems start 0 chunk) := hmetadata 0 chunk rfl
    obtain ⟨hvalues, hdtype⟩ := DenseTensor.cat_spec hcat
    have hplace : (groupItems start 0 chunk).foldlM (placeItem group) resultTensors =
        .ok (placeAll resultTensors chunk) := by
      apply placeItems_eq hv start []
      · rw [List.nil_append, hvalues, List.flatMap_map]
      · intro e he
        exact hdtype e.1 (List.mem_map_of_mem he)
    have hgroup : placeGroup groupMetadata resultTensors (group, start) = .ok (placeAll resultTensors chunk) := by
      rw [placeGroup, hitems]
      dsimp only
      rw [if_neg (hc.numel_ne_zero hcat), hplace]
    rw [List.zipIdx_cons, List.foldlM_cons, hgroup, Except.ok_bind, List.flatten_cons, placeAll_append]
    apply ih hchunk hview (start + 1)
    intro i c hi
    have := hmetadata (i + 1) c hi
    rwa [Nat.add_assoc, Nat.add_comm 1 i]

theorem LaidOut.get?_groupBy {state : GroupState δ α} {chunks : List (List (DenseTensor δ α × ℕ))}
    (h : LaidOut state chunks) {i : ℕ} {chunk : List (DenseTensor δ α × ℕ)} (hi : chunks[i]? = some chunk) :
    (Dict.groupBy GroupItem.groupIndex state.metadata).get? i = some (groupItems i 0 chunk) := by
  have hfilter : state.metadata.filter (fun item => item.groupIndex = i) = groupItems i 0 chunk := by
    have hitems := filter_layoutItems 0 hi
    rwa [Nat.zero_add, ← h.metadata] at hitems
  obtain ⟨e, rest, rfl⟩ := List.exists_cons_of_ne_nil (h.chunk chunk (List.mem_of_getElem? hi)).nonempty
  rw [Dict.get?_groupBy, hfilter, if_pos]
  have hmem : ⟨e.2, e.1.shape, e.1.dtype, i, 0, e.1.numel⟩ ∈
      state.metadata.filter (fun item => item.groupIndex = i) := by
    rw [hfilter]
    exact List.mem_cons_self
  exact List.mem_map.mpr ⟨_, (List.mem_filter.mp hmem).1, rfl⟩

theorem LaidOut.indices_perm {state : GroupState δ α} {chunks : List (List (DenseTensor δ α × ℕ))}
    (h : LaidOut state chunks) {tensors : List (DenseTensor δ α)} (hperm : chunks.flatten.Perm tensors.zipIdx) :
    (state.metadata.map GroupItem.originalIndex).Perm (List.range tensors.length) := by
  rw [h.metadata, map_originalIndex_layoutItems, List.range_eq_range', ← List.zipIdx_map_snd 0 tensors]
  exact hperm.map Prod.snd

theorem LaidOut.reconstruct {state : GroupState δ α} {chunks : List (List (DenseTensor δ α × ℕ))}
    (h : LaidOut state chunks) {tensors : List (DenseTensor δ α)} (hperm : chunks.flatten.Perm tensors.zipIdx)
    (hview : ∀ group ∈ state.finalTensorGroups, group.Viewable) :
    reconstructTensorsFromGroups state.finalTensorGroups state.metadata =
      .ok (tensors.map (fun t => some t.contiguous)) := by
  have hindices := h.indices_perm hperm
  unfold reconstructTensorsFromGroups
  split
  · rename_i hnil
    rw [hnil, List.map_nil] at hindices
    have hlength := hindices.length_eq
    rw [List.length_nil, List.length_range] at hlength
    rw [List.length_eq_zero_iff.mp hlength.symm, List.map_nil]
  · rename_i item rest hcons
    have hmax : (state.metadata.map GroupItem.originalIndex).foldr max 0 + 1 = tensors.length := by
      have hpos : 0 < tensors.length := by
        have hlength := hindices.length_eq
        rw [hcons, List.map_cons, List.length_cons, List.length_range] at hlength
        omega
      have hlt := Placement.foldr_max_lt hpos (fun x hx => List.mem_range.mp (hindices.mem_iff.mp hx))
      have hle := le_foldr_max (hindices.mem_iff.mpr (List.mem_range.mpr (Nat.sub_one_lt_of_lt hpos)))
      omega
    dsimp only
    rw [hmax, placeGroups_eq _ h.groups h.chunk hview 0 (fun i chunk hi => by rw [Nat.zero_add]; exact h.get?_groupBy hi)]
    have hcontiguous : (chunks.flatten.map (fun e => (e.1.contiguous, e.2))).Perm
        (tensors.map DenseTensor.contiguous).zipIdx := by
      rw [List.zipIdx_map]
      exact hperm.map _
    have hplace := Placement.foldl_set_zipIdx hcontiguous
    rw [List.foldl_map, List.length_map, List.map_map] at hplace
    exact congrArg _ hplace

end Reconstruct

section Ranges

variable [DecidableEq δ]

theorem LaidOut.flatMap_range {state : GroupState δ α} {chunks : List (List (DenseTensor δ α × ℕ))}
    (h : LaidOut state chunks) {g : ℕ} {group : DenseTensor δ α} (hg : state.finalTensorGroups[g]? = some group) :
    (state.metadata.filter (fun item => item.groupIndex = g)).flatMap
      (fun item => List.range' item.offset item.size) = List.range group.numel := by
  obtain ⟨hlt, rfl⟩ := List.getElem?_eq_some_iff.mp hg
  have hlt' : g < chunks.length := by rwa [h.groups.length_eq]
  have hcat : DenseTensor.cat (chunks[g].map Prod.fst) = .ok state.finalTensorGroups[g] := h.groups.get hlt' hlt
  have hitems := filter_layoutItems 0 (List.getElem?_eq_getElem hlt')
  rw [Nat.zero_add, ← h.metadata] at hitems
  rw [hitems, flatMap_range_groupItems, DenseTensor.numel, (DenseTensor.cat_spec hcat).1, List.flatMap_map,
    List.range_eq_range']

theorem LaidOut.groupIndex_lt {state : GroupState δ α} {chunks : List (List (DenseTensor δ α × ℕ))}
    (h : LaidOut state chunks) {item : GroupItem δ} (hitem : item ∈ state.metadata) :
    item.groupIndex < state.finalTensorGroups.length := by
  rw [h.metadata, layoutItems, List.mem_flatMap] at hitem
  obtain ⟨⟨chunk, i⟩, hchunk, hitem⟩ := hitem
  rw [groupIndex_of_mem_groupItems hitem, ← h.groups.length_eq]
  exact List.snd_lt_of_mem_zipIdx hchunk

end Ranges

end Awex
