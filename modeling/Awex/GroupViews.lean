import Awex.GroupSizes
import Mathlib.Algebra.BigOperators.Group.List.Lemmas
import Mathlib.Data.PNat.Defs

namespace Awex

variable {δ α : Type}

section Strides

theorem viewStride_of_denseStride {dims : List Dim} {z : ℕ} (h : Strided.denseStride dims = some z) :
    viewStride (dims.filter (·.size ≠ 1)) = some 1 ∧
      (dims.filter (·.size ≠ 1) = [] → z = 1) ∧
      ∀ d ∈ (dims.filter (·.size ≠ 1)).head?, z = d.size * d.stride := by
  induction dims generalizing z with
  | nil => exact ⟨rfl, fun _ => (Option.some.inj h).symm, by simp⟩
  | cons d dims ih =>
    rw [Strided.denseStride, Option.bind_eq_some_iff] at h
    obtain ⟨y, hy, h⟩ := h
    obtain ⟨hview, hnil, hhead⟩ := ih hy
    by_cases hone : d.size = 1
    · rw [if_pos hone] at h
      obtain rfl := Option.some.inj h
      rw [List.filter_cons_of_neg (by simpa using hone)]
      exact ⟨hview, hnil, hhead⟩
    · rw [if_neg hone] at h
      split_ifs at h with hstride
      obtain rfl := Option.some.inj h
      rw [List.filter_cons_of_pos (by simpa using hone)]
      refine ⟨?_, by simp, by simp [hstride]⟩
      cases hrest : dims.filter (·.size ≠ 1) with
      | nil => rw [viewStride, hstride, hnil hrest]
      | cons d' rest =>
        rw [hrest] at hview hhead
        rw [viewStride, hstride, if_pos (hhead d' rfl), hview]

theorem viewStride_cons {d : Dim} {dims : List Dim} (h : viewStride dims = none) : viewStride (d :: dims) = none := by
  cases dims with
  | nil => cases h
  | cons d' rest => rw [viewStride, h, ite_self]

theorem viewStride_channels {c : ℕ} (hc : 1 < c) {dims : List Dim} (hdvd : ∀ d ∈ dims, c ∣ d.stride)
    (hsize : ∃ d ∈ dims, d.size ≠ 1) : viewStride ((⟨c, 1⟩ :: dims).filter (·.size ≠ 1)) = none := by
  obtain ⟨d, hd, hne⟩ := hsize
  have hmem : d ∈ dims.filter (·.size ≠ 1) := List.mem_filter.mpr ⟨hd, by simpa using hne⟩
  rw [List.filter_cons_of_pos (by simpa using Nat.ne_of_gt hc)]
  cases hrest : dims.filter (·.size ≠ 1) with
  | nil => rw [hrest] at hmem; cases hmem
  | cons d' rest =>
    have hd' : d' ∈ dims := (List.mem_filter.mp (hrest ▸ List.mem_cons_self)).1
    have hstride : (1 : ℕ) ≠ d'.size * d'.stride := by
      intro hone
      have hdvd' : c ∣ 1 := hone ▸ Dvd.dvd.mul_left (hdvd d' hd') d'.size
      exact absurd (Nat.dvd_one.mp hdvd') (Nat.ne_of_gt hc)
    rw [viewStride, if_neg hstride]

/-- The channels lie innermost. -/
def interleavedDims (n c : ℕ) (spatial : List ℕ) : List Dim :=
  ⟨n, spatial.prod * c⟩ :: ⟨c, 1⟩ :: (Strided.rowMajor spatial).map (fun d => ⟨d.size, d.stride * c⟩)

theorem viewStride_interleaved {n c : ℕ} {spatial : List ℕ} (hc : 1 < c) (hs : 1 < spatial.prod) :
    viewStride ((interleavedDims n c spatial).filter (·.size ≠ 1)) = none := by
  have hchannels : viewStride ((⟨c, 1⟩ :: (Strided.rowMajor spatial).map
      (fun d => ⟨d.size, d.stride * c⟩)).filter (·.size ≠ 1)) = none := by
    apply viewStride_channels hc
    · intro d hd
      obtain ⟨d, -, rfl⟩ := List.mem_map.mp hd
      exact Dvd.intro_left d.stride rfl
    · by_contra hone
      push Not at hone
      apply Nat.ne_of_gt hs
      apply List.prod_eq_one
      intro x hx
      rw [← Strided.sizes_rowMajor spatial, Strided.sizes, List.mem_map] at hx
      obtain ⟨d, hd, rfl⟩ := hx
      exact hone ⟨d.size, d.stride * c⟩ (List.mem_map.mpr ⟨d, hd, rfl⟩)
  rw [interleavedDims, List.filter_cons]
  split_ifs
  · exact viewStride_cons hchannels
  · exact hchannels

theorem denseStride_map_mul {c : ℕ} {dims : List Dim} (h : c = 1 ∨ ∀ d ∈ dims, d.size = 1) {z : ℕ}
    (hz : Strided.denseStride dims = some z) :
    Strided.denseStride (dims.map (fun d => ⟨d.size, d.stride * c⟩)) = some z := by
  obtain rfl | h := h
  · simpa using hz
  · induction dims generalizing z with
    | nil => exact hz
    | cons d dims ih =>
      obtain ⟨hd, hdims⟩ := List.forall_mem_cons.mp h
      rw [Strided.denseStride, Option.bind_eq_some_iff] at hz
      obtain ⟨y, hy, hz⟩ := hz
      rw [List.map_cons, Strided.denseStride, ih hy hdims, Option.bind_some, if_pos hd]
      rwa [if_pos hd] at hz

theorem viewStride_interleaved_one {n c : ℕ} {spatial : List ℕ} (h : c = 1 ∨ spatial.prod = 1) :
    viewStride ((interleavedDims n c spatial).filter (·.size ≠ 1)) = some 1 := by
  have hspatial : Strided.denseStride ((Strided.rowMajor spatial).map (fun d => ⟨d.size, d.stride * c⟩)) =
      some spatial.prod := by
    apply denseStride_map_mul _ (Strided.denseStride_rowMajor spatial)
    apply h.imp_right
    intro hprod d hd
    have hmem : d.size ∈ Strided.sizes (Strided.rowMajor spatial) := List.mem_map_of_mem hd
    rw [Strided.sizes_rowMajor] at hmem
    exact Nat.dvd_one.mp (hprod ▸ List.dvd_prod hmem)
  have hchannels : ((Strided.denseStride ((Strided.rowMajor spatial).map (fun d => ⟨d.size, d.stride * c⟩))).bind
      fun z => if c = 1 then some z else if 1 = z then some (c * z) else none) = some (spatial.prod * c) := by
    rw [hspatial, Option.bind_some]
    obtain rfl | hprod := h
    · rw [if_pos rfl, Nat.mul_one]
    · rw [hprod, if_pos rfl, Nat.one_mul, Nat.mul_one, ite_eq_right_iff]
      intro hc
      rw [hc]
  have hdense : ∃ z, Strided.denseStride (interleavedDims n c spatial) = some z := by
    rw [interleavedDims, Strided.denseStride, Strided.denseStride, hchannels, Option.bind_some, if_pos rfl]
    split_ifs
    · exact ⟨_, rfl⟩
    · exact ⟨_, rfl⟩
  obtain ⟨z, hz⟩ := hdense
  exact (viewStride_of_denseStride hz).1

theorem viewStride_rowMajor (shape : List ℕ) :
    viewStride ((Strided.rowMajor shape).filter (·.size ≠ 1)) = some 1 :=
  (viewStride_of_denseStride (Strided.denseStride_rowMajor shape)).1

end Strides

section Formats

/-- The format that a tensor of this many dimensions can have other than the contiguous one. -/
def MemoryFormat.ofRank : ℕ → MemoryFormat
  | 4 => .channelsLast
  | 5 => .channelsLast3d
  | _ => .contiguous

theorem suggestMemoryFormat_eq (dims : List Dim) :
    suggestMemoryFormat dims = .contiguous ∨ suggestMemoryFormat dims = .ofRank dims.length := by
  unfold suggestMemoryFormat
  split
  · split_ifs
    · exact .inr rfl
    · exact .inl rfl
  · split_ifs
    · exact .inr rfl
    · exact .inl rfl
  · exact .inl rfl

theorem MemoryFormat.dims_ofRank {shape : List ℕ} (h : ofRank shape.length ≠ .contiguous) :
    ∃ n c spatial, shape = n :: c :: spatial ∧ (ofRank shape.length).dims shape = interleavedDims n c spatial := by
  match shape, h with
  | [n, c, h, w], _ =>
    refine ⟨n, c, [h, w], rfl, ?_⟩
    simp [ofRank, dims, interleavedDims, Strided.rowMajor, Nat.mul_assoc]
  | [n, c, d, h, w], _ =>
    refine ⟨n, c, [d, h, w], rfl, ?_⟩
    simp [ofRank, dims, interleavedDims, Strided.rowMajor, Nat.mul_assoc]

end Formats

namespace DenseTensor

/-- Channels last, with several channels and several positions. -/
def Interleaved (t : DenseTensor δ α) : Prop :=
  suggestMemoryFormat t.dims ≠ .contiguous ∧ 1 < t.shape.getD 1 0 ∧ 1 < (t.shape.drop 2).prod

instance (t : DenseTensor δ α) : Decidable t.Interleaved := inferInstanceAs (Decidable (_ ∧ _))

theorem catMemoryFormat_of_contiguous {tensors : List (DenseTensor δ α)} {t : DenseTensor δ α} (ht : t ∈ tensors)
    (h : suggestMemoryFormat t.dims = .contiguous) : catMemoryFormat tensors = .contiguous := by
  unfold catMemoryFormat
  split
  · rfl
  · rename_i first rest
    split_ifs with hsame
    · rcases List.mem_cons.mp ht with rfl | ht
      · exact h
      · rw [← hsame t ht, h]
    · rfl

theorem catMemoryFormat_of_same {tensors : List (DenseTensor δ α)} {format : MemoryFormat} (hne : tensors ≠ [])
    (h : ∀ t ∈ tensors, suggestMemoryFormat t.dims = format) : catMemoryFormat tensors = format := by
  obtain ⟨first, rest, rfl⟩ := List.exists_cons_of_ne_nil hne
  obtain ⟨hfirst, hrest⟩ := List.forall_mem_cons.mp h
  unfold catMemoryFormat
  dsimp only
  rw [hfirst, if_pos hrest]

theorem cat_dims [DecidableEq δ] {tensors : List (DenseTensor δ α)} {group : DenseTensor δ α}
    (h : cat tensors = .ok group) : ∃ n inner, group.dims = (catMemoryFormat tensors).dims (n :: inner) ∧
      ∀ t ∈ tensors, t.shape.tail = inner := by
  unfold cat at h
  split at h
  · cases h
  · split at h
    · cases h
    · split_ifs at h with hall
      obtain rfl := Except.ok.inj h
      refine ⟨_, _, rfl, ?_⟩
      intro t ht
      rw [(hall t ht).1, List.tail_cons]

end DenseTensor

section Chunks

variable [DecidableEq δ]

theorem Chunk.viewStride_eq {chunk : List (DenseTensor δ α × ℕ)} (h : Chunk chunk) {group : DenseTensor δ α}
    (hcat : DenseTensor.cat (chunk.map Prod.fst) = .ok group) :
    viewStride (group.dims.filter (·.size ≠ 1)) = if ∀ e ∈ chunk, e.1.Interleaved then none else some 1 := by
  obtain ⟨n, inner, hdims, htail⟩ := DenseTensor.cat_dims hcat
  have htail : ∀ e ∈ chunk, e.1.shape.tail = inner := fun e he => htail e.1 (List.mem_map_of_mem he)
  rw [hdims]
  by_cases hformat : ∃ e ∈ chunk, suggestMemoryFormat e.1.dims = .contiguous
  · obtain ⟨e, he, hcontiguous⟩ := hformat
    rw [DenseTensor.catMemoryFormat_of_contiguous (List.mem_map_of_mem he) hcontiguous,
      if_neg fun hall => (hall e he).1 hcontiguous]
    exact viewStride_rowMajor _
  · push Not at hformat
    obtain ⟨first, rest, rfl⟩ := List.exists_cons_of_ne_nil h.nonempty
    have hlength : ∀ e ∈ first :: rest, e.1.dims.length = (n :: inner).length := by
      intro e he
      obtain ⟨m, tail, hshape⟩ := List.exists_cons_of_ne_nil (h.dimensional e he)
      rw [← htail e he, hshape, List.tail_cons, List.length_cons, ← List.length_cons (a := m), ← hshape]
      exact (List.length_map _).symm
    have hsame : ∀ e ∈ first :: rest, suggestMemoryFormat e.1.dims = .ofRank (n :: inner).length := by
      intro e he
      rw [← hlength e he]
      exact (suggestMemoryFormat_eq e.1.dims).resolve_left (hformat e he)
    have hne : MemoryFormat.ofRank (n :: inner).length ≠ .contiguous :=
      hsame first List.mem_cons_self ▸ hformat first List.mem_cons_self
    obtain ⟨n', c, spatial, hshape, hinterleaved⟩ := MemoryFormat.dims_ofRank hne
    rw [List.cons.injEq] at hshape
    have hall : ∀ e ∈ first :: rest, e.1.Interleaved ↔ 1 < c ∧ 1 < spatial.prod := by
      intro e he
      obtain ⟨m, tail, hm⟩ := List.exists_cons_of_ne_nil (h.dimensional e he)
      have hinner : tail = c :: spatial := by
        have := htail e he
        rwa [hm, List.tail_cons, hshape.2] at this
      rw [DenseTensor.Interleaved, hm, hinner]
      exact and_iff_right (hformat e he)
    rw [DenseTensor.catMemoryFormat_of_same (by simp) (by
      intro t ht
      obtain ⟨e, he, rfl⟩ := List.mem_map.mp ht
      exact hsame e he), hinterleaved]
    by_cases hmore : 1 < c ∧ 1 < spatial.prod
    · rw [if_pos fun e he => (hall e he).mpr hmore]
      exact viewStride_interleaved hmore.1 hmore.2
    · rw [if_neg fun hfirst => hmore ((hall first List.mem_cons_self).mp (hfirst first List.mem_cons_self))]
      apply viewStride_interleaved_one
      have hpos : 0 ∉ first.1.shape := h.inhabited first List.mem_cons_self
      obtain ⟨m, tail, hm⟩ := List.exists_cons_of_ne_nil (h.dimensional first List.mem_cons_self)
      have hinner : tail = c :: spatial := by
        have := htail first List.mem_cons_self
        rwa [hm, List.tail_cons, hshape.2] at this
      rw [hm, hinner, List.mem_cons, List.mem_cons, not_or, not_or] at hpos
      have hprod : spatial.prod ≠ 0 := List.prod_ne_zero hpos.2.2
      omega

omit [DecidableEq δ] in
theorem viewStride_of_viewSlice {group : DenseTensor δ α} {start stop : ℕ} {shape : List ℕ} {t : DenseTensor δ α}
    (h : group.viewSlice start stop shape = .ok t) : viewStride (group.dims.filter (·.size ≠ 1)) ≠ none := by
  intro hnone
  rw [DenseTensor.viewSlice] at h
  simp only [hnone] at h
  cases h

end Chunks

section RoundTrip

variable [DecidableEq δ] {state : GroupState δ α} {chunks : List (List (DenseTensor δ α × ℕ))}

theorem LaidOut.viewStride_ne_none (h : LaidOut state chunks) {result : List (Option (DenseTensor δ α))}
    (hresult : reconstructTensorsFromGroups state.finalTensorGroups state.metadata = .ok result)
    {group : DenseTensor δ α} (hgroup : group ∈ state.finalTensorGroups) :
    viewStride (group.dims.filter (·.size ≠ 1)) ≠ none := by
  obtain ⟨g, hg, rfl⟩ := List.getElem_of_mem hgroup
  have hg' : g < chunks.length := by rwa [h.groups.length_eq]
  have hitems := h.get?_groupBy (List.getElem?_eq_getElem hg')
  obtain ⟨e, rest, hchunk⟩ := List.exists_cons_of_ne_nil (h.chunk chunks[g] (List.getElem_mem hg')).nonempty
  unfold reconstructTensorsFromGroups at hresult
  split at hresult
  · rename_i hnil
    rw [hnil, hchunk] at hitems
    cases hitems
  · have hmem : (state.finalTensorGroups[g], g) ∈ state.finalTensorGroups.zipIdx :=
      List.mem_zipIdx_iff_getElem?.mpr (List.getElem?_eq_getElem hg)
    obtain ⟨placed, placed', hplace⟩ := Except.foldlM_visits hresult hmem
    rw [placeGroup, hitems, hchunk] at hplace
    dsimp only at hplace
    split_ifs at hplace
    obtain ⟨first, first', hfirst⟩ := Except.foldlM_visits hplace List.mem_cons_self
    obtain ⟨t, ht, -⟩ := Except.bind_eq_ok.mp hfirst
    exact viewStride_of_viewSlice ht

variable (elementSize : δ → ℕ) (tensors : List (DenseTensor δ α)) (maxTensorSize : ℤ)

theorem flatten_groupChunks_perm : (groupChunks tensors elementSize maxTensorSize).flatten.Perm tensors.zipIdx := by
  let key : DenseTensor δ α × ℕ → List ℕ × δ := fun e => (e.1.shape, e.1.dtype)
  have hkinds : ((Dict.groupBy key tensors.zipIdx).values.flatMap id).Perm tensors.zipIdx := by
    rw [Dict.values_eq _ [], List.flatMap_map]
    simp only [Dict.getD_groupBy, id]
    apply Placement.flatMap_filter_perm key (Dict.groupBy key tensors.zipIdx).nodup
    intro e he
    exact (Dict.mem_keys_groupBy key tensors.zipIdx (key e)).mpr (List.mem_map_of_mem he)
  rw [groupChunks, List.flatMap_def, List.flatten_flatten, List.map_map, ← List.flatMap_def]
  refine (List.Perm.flatMap_left _ ?_).trans hkinds
  intro entries _
  rw [Function.comp_apply, Flushes.flatten_batches, List.nil_append]
  exact List.perm_insertionSort _ _

variable {elementSize tensors maxTensorSize}

theorem chunk_of_mem_groupChunks (h : ∀ t ∈ tensors, t.shape ≠ [] ∧ 0 ∉ t.shape)
    {chunk : List (DenseTensor δ α × ℕ)} (hchunk : chunk ∈ groupChunks tensors elementSize maxTensorSize) :
    Chunk chunk := by
  obtain ⟨t, ht, hchunk⟩ := mem_groupChunks.mp hchunk
  have hkind : ∀ e ∈ chunk, e.1.shape = t.shape ∧ e.1.dtype = t.dtype := by
    intro e he
    exact (mem_alikeEntries.mp (Flushes.mem_of_mem_batches hchunk he)).2
  refine ⟨Flushes.ne_nil_of_mem_batches hchunk, ?_, ?_, ?_⟩
  · intro e he e' he'
    exact ⟨(hkind e he).1.trans (hkind e' he').1.symm, (hkind e he).2.trans (hkind e' he').2.symm⟩
  · intro e he
    rw [(hkind e he).1]
    exact (h t ht).1
  · intro e he
    rw [(hkind e he).1]
    exact (h t ht).2

theorem laidOut_groupChunks (h : ∀ t ∈ tensors, t.shape ≠ [] ∧ 0 ∉ t.shape)
    (hstate : groupTensorsByShapeAndDtype elementSize tensors maxTensorSize = .ok state) :
    LaidOut state (groupChunks tensors elementSize maxTensorSize) := by
  rw [groupTensors_eq] at hstate
  obtain ⟨groups, hgroups, rfl⟩ := finalizeGroups_eq_ok.mp hstate
  exact ⟨hgroups, rfl, fun chunk hchunk => chunk_of_mem_groupChunks h hchunk⟩

def alikeTensors (tensors : List (DenseTensor δ α)) (t : DenseTensor δ α) : List (DenseTensor δ α) :=
  tensors.filter (fun t' => t'.shape = t.shape ∧ t'.dtype = t.dtype)

theorem map_fst_alikeEntries (t : DenseTensor δ α) :
    (alikeEntries tensors t).map Prod.fst = alikeTensors tensors t := by
  have hsorted : tensors.zipIdx.Pairwise (fun x y => x.2 ≤ y.2) := by
    rw [← List.pairwise_map (f := Prod.snd), List.zipIdx_map_snd]
    exact List.pairwise_le_range' 1
  rw [alikeEntries, (hsorted.filter _).insertionSort_eq, alikeTensors]
  conv_rhs => rw [← List.zipIdx_map_fst 0 tensors, List.filter_map]
  simp only [Prod.mk.injEq]
  rfl

theorem groupChunks_viewable_iff (hsize : ∀ d, 0 < elementSize d) (h : ∀ t ∈ tensors, t.shape ≠ [] ∧ 0 ∉ t.shape) :
    (∀ chunk ∈ groupChunks tensors elementSize maxTensorSize, ∃ e ∈ chunk, ¬ e.1.Interleaved) ↔
    ∀ t ∈ tensors, ∀ i,
      Chunks.block (alikeTensors tensors t) (Flushes.batchLength maxTensorSize (t.bytes elementSize)) i ≠ [] →
      ∃ t' ∈ Chunks.block (alikeTensors tensors t) (Flushes.batchLength maxTensorSize (t.bytes elementSize)) i,
        ¬ t'.Interleaved := by
  have hbytes : ∀ t ∈ tensors, 0 < t.bytes elementSize := by
    intro t ht
    apply Nat.mul_pos (hsize t.dtype)
    rw [DenseTensor.numel_eq]
    exact Nat.pos_of_ne_zero (List.prod_ne_zero (h t ht).2)
  have hblock : ∀ t ∈ tensors, ∀ chunk, chunk ∈ Flushes.batches (fun e => e.1.bytes elementSize) maxTensorSize [] 0
      (alikeEntries tensors t) ↔ chunk ≠ [] ∧ ∃ i,
        chunk = Chunks.block (alikeEntries tensors t) (Flushes.batchLength maxTensorSize (t.bytes elementSize)) i := by
    intro t ht chunk
    exact Flushes.mem_batches_iff (hbytes t ht) (fun e he => bytes_of_mem_alikeEntries he)
  constructor
  · intro hall t ht i hne
    rw [← map_fst_alikeEntries, Chunks.block_map] at hne ⊢
    obtain ⟨e, he, hplain⟩ := hall _ (mem_groupChunks.mpr ⟨t, ht, (hblock t ht _).mpr
      ⟨fun hnil => hne (by rw [hnil, List.map_nil]), i, rfl⟩⟩)
    exact ⟨e.1, List.mem_map_of_mem he, hplain⟩
  · intro hall chunk hchunk
    obtain ⟨t, ht, hchunk⟩ := mem_groupChunks.mp hchunk
    obtain ⟨hne, i, rfl⟩ := (hblock t ht chunk).mp hchunk
    have hplain := hall t ht i
    rw [← map_fst_alikeEntries, Chunks.block_map] at hplain
    obtain ⟨t', ht', hplain⟩ := hplain (by simpa using hne)
    obtain ⟨e, he, rfl⟩ := List.mem_map.mp ht'
    exact ⟨e, he, hplain⟩

def DenseTensor.content (t : DenseTensor δ α) : List ℕ × δ × List α := (t.shape, t.dtype, t.values)

structure RoundTrip (tensors : List (DenseTensor δ α)) (state : GroupState δ α) : Prop where
  reconstructed : ∃ result, reconstructTensorsFromGroups state.finalTensorGroups state.metadata = .ok result ∧
    result.map (Option.map DenseTensor.content) = tensors.map (fun t => some t.content)
  indices : (state.metadata.map GroupItem.originalIndex).Perm (List.range tensors.length)
  groupIndex_lt : ∀ item ∈ state.metadata, item.groupIndex < state.finalTensorGroups.length
  ranges : ∀ g group, state.finalTensorGroups[g]? = some group →
    (state.metadata.filter (fun item => item.groupIndex = g)).flatMap
      (fun item => List.range' item.offset item.size) = List.range group.numel

omit [DecidableEq δ] in
theorem DenseTensor.content_contiguous (t : DenseTensor δ α) : t.contiguous.content = t.content := by
  rw [content, contiguous, shape, Strided.sizes_rowMajor]
  rfl

theorem LaidOut.roundTrip_iff (h : LaidOut state chunks) (hperm : chunks.flatten.Perm tensors.zipIdx) :
    RoundTrip tensors state ↔ ∀ chunk ∈ chunks, ∃ e ∈ chunk, ¬ e.1.Interleaved := by
  constructor
  · rintro ⟨⟨result, hresult, -⟩, -, -, -⟩ chunk hchunk
    obtain ⟨group, hgroup, hcat⟩ := exists_of_forall₂_mem h.groups hchunk
    by_contra hall
    push Not at hall
    have hstride := (h.chunk chunk hchunk).viewStride_eq hcat
    rw [if_pos hall] at hstride
    exact h.viewStride_ne_none hresult hgroup hstride
  · intro hchunks
    have hview : ∀ group ∈ state.finalTensorGroups, group.Viewable := by
      intro group hgroup
      obtain ⟨chunk, hchunk, hcat⟩ := exists_of_forall₂_mem_right h.groups hgroup
      obtain ⟨e, he, hplain⟩ := hchunks chunk hchunk
      rw [DenseTensor.Viewable, (h.chunk chunk hchunk).viewStride_eq hcat, if_neg fun hall => hplain (hall e he)]
    refine ⟨⟨_, h.reconstruct hperm hview, ?_⟩, h.indices_perm hperm, ?_, ?_⟩
    · simp [DenseTensor.content_contiguous]
    · intro item hitem
      exact h.groupIndex_lt hitem
    · intro g group hg
      exact h.flatMap_range hg

/-- The groups of a shape and dtype are blocks of equal length. A block of interleaved tensors alone stays
interleaved when it is put together, and its flat view is refused. -/
theorem groupTensors_roundTrip_iff (elementSize : δ → ℕ+) (tensors : List (DenseTensor δ α)) (maxTensorSize : ℤ)
    (h : ∀ t ∈ tensors, t.shape ≠ [] ∧ 0 ∉ t.shape) :
    (∃ state, groupTensorsByShapeAndDtype (fun dtype => (elementSize dtype : ℕ)) tensors maxTensorSize = .ok state ∧
      RoundTrip tensors state) ↔
    ∀ t ∈ tensors, ∀ i,
      Chunks.block (alikeTensors tensors t)
        (Flushes.batchLength maxTensorSize (t.bytes (fun dtype => (elementSize dtype : ℕ)))) i ≠ [] →
      ∃ t' ∈ Chunks.block (alikeTensors tensors t)
        (Flushes.batchLength maxTensorSize (t.bytes (fun dtype => (elementSize dtype : ℕ)))) i,
        ¬ t'.Interleaved := by
  obtain ⟨state, hstate⟩ : ∃ state, groupTensorsByShapeAndDtype (fun dtype => (elementSize dtype : ℕ)) tensors
      maxTensorSize = .ok state := groupTensors_isOk_iff.mpr fun t ht => (h t ht).1
  have hround := (laidOut_groupChunks h hstate).roundTrip_iff (flatten_groupChunks_perm _ _ _)
  rw [← groupChunks_viewable_iff (fun dtype => (elementSize dtype).pos) h, ← hround]
  constructor
  · rintro ⟨state', hstate', hround'⟩
    rw [hstate] at hstate'
    exact Except.ok.inj hstate' ▸ hround'
  · intro hround'
    exact ⟨state, hstate, hround'⟩

theorem groupTensors_roundTrip_iff_threeTensors :
    let tensors : List (DenseTensor String ℤ) :=
      [⟨Strided.rowMajor [2, 1], "bfloat16", [1, 2], rfl⟩, ⟨Strided.rowMajor [1], "float32", [5], rfl⟩,
        ⟨Strided.rowMajor [2, 1], "bfloat16", [3, 4], rfl⟩]
    ∃ state, groupTensorsByShapeAndDtype (fun dtype => if dtype = "float32" then 4 else 2) tensors 6 = .ok state ∧
      RoundTrip tensors state := by
  intro tensors
  have hsize : (fun dtype : String => if dtype = "float32" then 4 else 2) =
      fun dtype => ((if dtype = "float32" then 4 else 2 : ℕ+) : ℕ) := by
    funext dtype
    split_ifs <;> rfl
  have hplain : ∀ t ∈ tensors, ¬ t.Interleaved := by decide
  rw [hsize]
  refine (groupTensors_roundTrip_iff _ tensors 6 (by decide)).mpr ?_
  intro t _ i hne
  obtain ⟨t', ht'⟩ := List.exists_mem_of_ne_nil _ hne
  exact ⟨t', ht', hplain t' (List.mem_filter.mp (List.mem_of_mem_drop (List.mem_of_mem_take ht'))).1⟩

theorem not_roundTrip_channelsLast :
    ¬ ∀ (tensors : List (DenseTensor String ℤ)) (maxTensorSize : ℤ), (∀ t ∈ tensors, t.shape ≠ [] ∧ 0 ∉ t.shape) →
      ∃ state, groupTensorsByShapeAndDtype (fun _ => 4) tensors maxTensorSize = .ok state ∧ RoundTrip tensors state := by
  intro h
  obtain ⟨state, hstate, hround⟩ :=
    h [⟨[⟨1, 4⟩, ⟨2, 1⟩, ⟨1, 4⟩, ⟨2, 2⟩], "float32", [1, 2, 3, 4], rfl⟩] 100 (by decide)
  obtain ⟨result, hresult, -⟩ := hround.reconstructed
  obtain rfl := Except.ok.inj hstate
  cases hresult

end RoundTrip

end Awex
