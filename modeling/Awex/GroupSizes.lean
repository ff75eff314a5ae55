import Awex.GroupRoundTrip
import Awex.Library.Flushes

namespace Awex

open Flushes

variable {δ α : Type}

def DenseTensor.bytes (elementSize : δ → ℕ) (t : DenseTensor δ α) : ℕ := elementSize t.dtype * t.numel

def SizeBounded (elementSize : δ → ℕ) (maxTensorSize : ℤ) (state : GroupState δ α) : Prop :=
  ∀ g group, state.finalTensorGroups[g]? = some group →
    (group.bytes elementSize : ℤ) ≤ maxTensorSize ∨
      (state.metadata.filter (fun item => item.groupIndex = g)).length = 1

theorem length_groupItems (groupIndex offset : ℕ) (chunk : List (DenseTensor δ α × ℕ)) :
    (groupItems groupIndex offset chunk).length = chunk.length := by
  rw [← List.length_map GroupItem.originalIndex, map_originalIndex_groupItems, List.length_map]

variable [DecidableEq δ] {elementSize : δ → ℕ} {maxTensorSize : ℤ}

section Batches

theorem addToGroup_eq (current : CurrentGroup δ α) (entry : DenseTensor δ α × ℕ) :
    addToGroup elementSize maxTensorSize current entry =
      if current.size + entry.1.bytes elementSize > maxTensorSize then do
        let state ← finalizeGroup current.state (current.tensors ++ [entry])
        .ok ⟨state, [], 0⟩
      else .ok ⟨current.state, current.tensors ++ [entry], current.size + entry.1.bytes elementSize⟩ := rfl

theorem addToGroups_eq (entries : List (DenseTensor δ α × ℕ)) (state : GroupState δ α)
    (current : List (DenseTensor δ α × ℕ)) (size : ℤ) :
    (entries.foldlM (addToGroup elementSize maxTensorSize) ⟨state, current, size⟩ >>= fun last =>
      match last.tensors with
      | [] => .ok last.state
      | _ :: _ => finalizeGroup last.state last.tensors) =
    (batches (fun e => e.1.bytes elementSize) maxTensorSize current size entries).foldlM finalizeGroup state := by
  induction entries generalizing state current size with
  | nil =>
    cases current with
    | nil => rfl
    | cons e current =>
      rw [batches, if_neg (List.cons_ne_nil e current), List.foldlM_cons, List.foldlM_nil]
      exact (bind_pure _).symm
  | cons e entries ih =>
    rw [List.foldlM_cons, batches, addToGroup_eq]
    split_ifs
    · rw [List.foldlM_cons]
      cases finalizeGroup state (current ++ [e]) with
      | error err => rfl
      | ok state' => exact ih state' [] 0
    · exact ih state (current ++ [e]) _

theorem splitGroup_eq (state : GroupState δ α) (entries : List (DenseTensor δ α × ℕ)) :
    splitGroup elementSize maxTensorSize state entries =
      (batches (fun e => e.1.bytes elementSize) maxTensorSize [] 0
        (entries.insertionSort (fun x y => x.2 ≤ y.2))).foldlM finalizeGroup state :=
  addToGroups_eq _ state [] 0

theorem foldlM_splitGroup_eq (groups : List (List (DenseTensor δ α × ℕ))) (state : GroupState δ α) :
    groups.foldlM (splitGroup elementSize maxTensorSize) state =
      (groups.flatMap (fun entries => batches (fun e => e.1.bytes elementSize) maxTensorSize [] 0
        (entries.insertionSort (fun x y => x.2 ≤ y.2)))).foldlM finalizeGroup state := by
  induction groups generalizing state with
  | nil => rfl
  | cons entries groups ih =>
    rw [List.foldlM_cons, List.flatMap_cons, List.foldlM_append, splitGroup_eq]
    congr 1
    funext state'
    exact ih state'

end Batches

section Finalize

theorem finalizeGroups_eq_ok {chunks : List (List (DenseTensor δ α × ℕ))} {state state' : GroupState δ α} :
    chunks.foldlM finalizeGroup state = .ok state' ↔
      ∃ groups, List.Forall₂ (fun chunk group => DenseTensor.cat (chunk.map Prod.fst) = .ok group) chunks groups ∧
        state' = ⟨state.finalTensorGroups ++ groups,
          state.metadata ++ layoutItems state.finalTensorGroups.length chunks⟩ := by
  induction chunks generalizing state with
  | nil =>
    simp only [List.foldlM_nil, List.forall₂_nil_left_iff, exists_eq_left, layoutItems, List.zipIdx_nil,
      List.flatMap_nil, List.append_nil]
    exact Except.ok.injEq state state' ▸ eq_comm
  | cons chunk chunks ih =>
    rw [List.foldlM_cons, finalizeGroup, bind_assoc, Except.bind_eq_ok]
    constructor
    · rintro ⟨group, hcat, hrest⟩
      obtain ⟨groups, hgroups, rfl⟩ := ih.mp hrest
      refine ⟨group :: groups, .cons hcat hgroups, ?_⟩
      simp [layoutItems]
    · rintro ⟨groups, hgroups, rfl⟩
      cases hgroups with
      | @cons _ group _ groups hcat hgroups =>
        refine ⟨group, hcat, ih.mpr ⟨groups, hgroups, ?_⟩⟩
        simp [layoutItems]

theorem bytes_cat {chunk : List (DenseTensor δ α × ℕ)} {group : DenseTensor δ α}
    (h : DenseTensor.cat (chunk.map Prod.fst) = .ok group) :
    group.bytes elementSize = (chunk.map (fun e => e.1.bytes elementSize)).sum := by
  obtain ⟨hvalues, hdtype⟩ := DenseTensor.cat_spec h
  have hbytes : chunk.map (fun e => e.1.bytes elementSize) =
      chunk.map (fun e => elementSize group.dtype * e.1.numel) := by
    apply List.map_congr_left
    intro e he
    rw [DenseTensor.bytes, hdtype e.1 (List.mem_map_of_mem he)]
  rw [hbytes, List.sum_map_mul_left, DenseTensor.bytes, DenseTensor.numel, hvalues, List.flatMap_map,
    List.length_flatMap]
  rfl

theorem sizeBounded_iff {chunks : List (List (DenseTensor δ α × ℕ))} {state : GroupState δ α}
    (h : chunks.foldlM finalizeGroup ⟨[], []⟩ = .ok state) :
    SizeBounded elementSize maxTensorSize state ↔ ∀ chunk ∈ chunks,
      (((chunk.map (fun e => e.1.bytes elementSize)).sum : ℕ) : ℤ) ≤ maxTensorSize ∨ chunk.length = 1 := by
  obtain ⟨groups, hgroups, rfl⟩ := finalizeGroups_eq_ok.mp h
  have hitems : ∀ g chunk, chunks[g]? = some chunk →
      ((layoutItems 0 chunks).filter (fun item => item.groupIndex = g)).length = chunk.length := by
    intro g chunk hchunk
    have hfilter := filter_layoutItems 0 hchunk
    rw [Nat.zero_add] at hfilter
    rw [hfilter, length_groupItems]
  simp only [SizeBounded, List.nil_append, List.length_nil]
  constructor
  · intro hbounded chunk hchunk
    obtain ⟨g, hg, rfl⟩ := List.getElem_of_mem hchunk
    have hg' : g < groups.length := hgroups.length_eq ▸ hg
    have hcat : DenseTensor.cat (chunks[g].map Prod.fst) = .ok groups[g] := hgroups.get hg hg'
    have hgroup := hbounded g groups[g] (List.getElem?_eq_getElem hg')
    rwa [hitems g chunks[g] (List.getElem?_eq_getElem hg), bytes_cat hcat] at hgroup
  · intro hchunks g group hg
    obtain ⟨hg', rfl⟩ := List.getElem?_eq_some_iff.mp hg
    have hlt : g < chunks.length := hgroups.length_eq ▸ hg'
    have hcat : DenseTensor.cat (chunks[g].map Prod.fst) = .ok groups[g] := hgroups.get hlt hg'
    have hchunk := hchunks chunks[g] (List.getElem_mem hlt)
    rwa [hitems g chunks[g] (List.getElem?_eq_getElem hlt), bytes_cat hcat]

end Finalize

section Kinds

variable (tensors : List (DenseTensor δ α)) (t : DenseTensor δ α)

/-- How many of the tensors have the shape and the dtype of `t`. -/
def alikeCount : ℕ := (tensors.filter (fun t' => t'.shape = t.shape ∧ t'.dtype = t.dtype)).length

def alikeEntries : List (DenseTensor δ α × ℕ) :=
  (tensors.zipIdx.filter (fun e => (e.1.shape, e.1.dtype) = (t.shape, t.dtype))).insertionSort (fun x y => x.2 ≤ y.2)

def groupChunks (elementSize : δ → ℕ) (maxTensorSize : ℤ) : List (List (DenseTensor δ α × ℕ)) :=
  (Dict.groupBy (fun entry => (entry.1.shape, entry.1.dtype)) tensors.zipIdx).values.flatMap (fun entries =>
    batches (fun e => e.1.bytes elementSize) maxTensorSize [] 0 (entries.insertionSort (fun x y => x.2 ≤ y.2)))

variable {tensors t}

theorem mem_alikeEntries {e : DenseTensor δ α × ℕ} : e ∈ alikeEntries tensors t ↔
    e ∈ tensors.zipIdx ∧ e.1.shape = t.shape ∧ e.1.dtype = t.dtype := by
  rw [alikeEntries, (List.perm_insertionSort _ _).mem_iff, List.mem_filter, decide_eq_true_eq, Prod.mk.injEq]

theorem length_alikeEntries : (alikeEntries tensors t).length = alikeCount tensors t := by
  have hfst : tensors.zipIdx.map Prod.fst = tensors := List.zipIdx_map_fst 0 tensors
  rw [alikeEntries, List.length_insertionSort, alikeCount]
  conv_rhs => rw [← hfst, List.filter_map, List.length_map]
  simp only [Prod.mk.injEq]
  rfl

theorem bytes_of_mem_alikeEntries {e : DenseTensor δ α × ℕ} (he : e ∈ alikeEntries tensors t) :
    e.1.bytes elementSize = t.bytes elementSize := by
  obtain ⟨-, hshape, hdtype⟩ := mem_alikeEntries.mp he
  rw [DenseTensor.bytes, DenseTensor.bytes, DenseTensor.numel_eq, DenseTensor.numel_eq, hshape, hdtype]

theorem mem_groupChunks {chunk : List (DenseTensor δ α × ℕ)} :
    chunk ∈ groupChunks tensors elementSize maxTensorSize ↔ ∃ t ∈ tensors,
      chunk ∈ batches (fun e => e.1.bytes elementSize) maxTensorSize [] 0 (alikeEntries tensors t) := by
  let key : DenseTensor δ α × ℕ → List ℕ × δ := fun e => (e.1.shape, e.1.dtype)
  have hkeys : ∀ k, k ∈ (Dict.groupBy key tensors.zipIdx).keys ↔ ∃ t ∈ tensors, k = (t.shape, t.dtype) := by
    intro k
    rw [Dict.mem_keys_groupBy, List.mem_map]
    constructor
    · rintro ⟨e, he, rfl⟩
      exact ⟨e.1, List.fst_mem_of_mem_zipIdx he, rfl⟩
    · rintro ⟨t, ht, rfl⟩
      obtain ⟨i, hi, rfl⟩ := List.getElem_of_mem ht
      exact ⟨(tensors[i], i), List.mem_zipIdx_iff_getElem?.mpr (List.getElem?_eq_getElem hi), rfl⟩
  rw [groupChunks, Dict.values_eq _ [], List.flatMap_map, List.mem_flatMap]
  simp only [Dict.getD_groupBy]
  constructor
  · rintro ⟨k, hk, hchunk⟩
    obtain ⟨t, ht, rfl⟩ := (hkeys k).mp hk
    exact ⟨t, ht, hchunk⟩
  · rintro ⟨t, ht, hchunk⟩
    exact ⟨_, (hkeys _).mpr ⟨t, ht, rfl⟩, hchunk⟩

theorem groupTensors_eq : groupTensorsByShapeAndDtype elementSize tensors maxTensorSize =
    (groupChunks tensors elementSize maxTensorSize).foldlM finalizeGroup ⟨[], []⟩ :=
  foldlM_splitGroup_eq _ _

theorem groupTensors_isOk_iff : (∃ state, groupTensorsByShapeAndDtype elementSize tensors maxTensorSize = .ok state) ↔
    ∀ t ∈ tensors, t.shape ≠ [] := by
  rw [groupTensors_eq]
  constructor
  · rintro ⟨state, hstate⟩ t ht
    obtain ⟨groups, hgroups, -⟩ := finalizeGroups_eq_ok.mp hstate
    obtain ⟨i, hi, rfl⟩ := List.getElem_of_mem ht
    have he : (tensors[i], i) ∈ alikeEntries tensors tensors[i] := by
      apply mem_alikeEntries.mpr
      exact ⟨List.mem_zipIdx_iff_getElem?.mpr (List.getElem?_eq_getElem hi), rfl, rfl⟩
    obtain ⟨chunk, hchunk, he⟩ := exists_batch (fun e => e.1.bytes elementSize) maxTensorSize he
    obtain ⟨group, -, hcat⟩ := exists_of_forall₂_mem hgroups (mem_groupChunks.mpr ⟨tensors[i], ht, hchunk⟩)
    exact DenseTensor.shape_ne_nil_of_cat hcat (List.mem_map_of_mem he)
  · intro hdim
    have hcat : ∀ chunk ∈ groupChunks tensors elementSize maxTensorSize,
        ∃ group, DenseTensor.cat (chunk.map Prod.fst) = .ok group := by
      intro chunk hchunk
      obtain ⟨t, ht, hchunk⟩ := mem_groupChunks.mp hchunk
      have hkind : ∀ e ∈ chunk, e.1.shape = t.shape ∧ e.1.dtype = t.dtype := by
        intro e he
        exact (mem_alikeEntries.mp (mem_of_mem_batches hchunk he)).2
      apply DenseTensor.exists_cat (ne_nil_of_mem_batches hchunk)
      · intro e he e' he'
        exact ⟨(hkind e he).1.trans (hkind e' he').1.symm, (hkind e he).2.trans (hkind e' he').2.symm⟩
      · intro e he
        rw [(hkind e he).1]
        exact hdim t ht
    obtain ⟨groups, hgroups⟩ := Except.mapM_isOk.mpr hcat
    exact ⟨_, finalizeGroups_eq_ok.mpr ⟨groups, Except.mapM_eq_ok.mp hgroups, rfl⟩⟩

/-- A tensor joins its group before the limit is looked at, so the bound holds only where no group is closed early
with company. -/
theorem groupSizes_iff (elementSize : δ → ℕ) (tensors : List (DenseTensor δ α)) (maxTensorSize : ℤ) :
    (∀ state, groupTensorsByShapeAndDtype elementSize tensors maxTensorSize = .ok state →
      SizeBounded elementSize maxTensorSize state) ↔
    (∃ t ∈ tensors, t.shape = []) ∨ ∀ t ∈ tensors, maxTensorSize < t.bytes elementSize ∨
      ((alikeCount tensors t * t.bytes elementSize : ℕ) : ℤ) ≤ maxTensorSize := by
  have hbounded : (∀ chunk ∈ groupChunks tensors elementSize maxTensorSize,
      (((chunk.map (fun e => e.1.bytes elementSize)).sum : ℕ) : ℤ) ≤ maxTensorSize ∨ chunk.length = 1) ↔
      ∀ t ∈ tensors, maxTensorSize < t.bytes elementSize ∨
        ((alikeCount tensors t * t.bytes elementSize : ℕ) : ℤ) ≤ maxTensorSize := by
    have hkind : ∀ t, (∀ chunk ∈ batches (fun e => e.1.bytes elementSize) maxTensorSize [] 0 (alikeEntries tensors t),
        (((chunk.map (fun e => e.1.bytes elementSize)).sum : ℕ) : ℤ) ≤ maxTensorSize ∨ chunk.length = 1) ↔
        maxTensorSize < t.bytes elementSize ∨
          ((alikeCount tensors t * t.bytes elementSize : ℕ) : ℤ) ≤ maxTensorSize := by
      intro t
      rw [← length_alikeEntries]
      exact batches_bounded_iff (fun e he => bytes_of_mem_alikeEntries he)
    constructor
    · intro h t ht
      apply (hkind t).mp
      intro chunk hchunk
      exact h chunk (mem_groupChunks.mpr ⟨t, ht, hchunk⟩)
    · intro h chunk hchunk
      obtain ⟨t, ht, hchunk⟩ := mem_groupChunks.mp hchunk
      exact (hkind t).mpr (h t ht) chunk hchunk
  rw [← hbounded]
  constructor
  · intro h
    by_cases hdim : ∃ t ∈ tensors, t.shape = []
    · exact .inl hdim
    · obtain ⟨state, hstate⟩ := groupTensors_isOk_iff.mpr (fun t ht hnil => hdim ⟨t, ht, hnil⟩)
      have hfold := groupTensors_eq.symm.trans hstate
      exact .inr ((sizeBounded_iff hfold).mp (h state hstate))
  · rintro (⟨t, ht, hnil⟩ | h) state hstate
    · exact absurd hnil (groupTensors_isOk_iff.mp ⟨state, hstate⟩ t ht)
    · exact (sizeBounded_iff (groupTensors_eq.symm.trans hstate)).mpr h

theorem not_sizeBounded_twoTensors :
    ¬ ∀ (tensors : List (DenseTensor String ℤ)) (maxTensorSize : ℤ) (state : GroupState String ℤ),
      groupTensorsByShapeAndDtype (fun _ => 4) tensors maxTensorSize = .ok state →
        SizeBounded (fun _ => 4) maxTensorSize state := by
  intro h
  have hstate := h [⟨Strided.rowMajor [2], "float32", [1, 2], rfl⟩, ⟨Strided.rowMajor [2], "float32", [3, 4], rfl⟩] 12
    ⟨[⟨Strided.rowMajor [4], "float32", [1, 2, 3, 4], rfl⟩], [⟨0, [2], "float32", 0, 0, 2⟩, ⟨1, [2], "float32", 0, 2, 2⟩]⟩ rfl
  have hgroup := hstate 0 ⟨Strided.rowMajor [4], "float32", [1, 2, 3, 4], rfl⟩ rfl
  revert hgroup
  decide

end Kinds

end Awex
