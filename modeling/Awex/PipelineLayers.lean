import Awex.LayerOrder
import Awex.PipelineLayout
import Awex.Library.ExceptList
import Awex.Library.Offsets
import Mathlib.Data.List.GetD

namespace Awex

structure StageGrid (ppSize vpSize : ℕ) (stageCounts : List (List ℤ)) : Prop where
  rows : stageCounts.length = ppSize
  columns : ∀ row ∈ stageCounts, row.length = vpSize
  nonneg : ∀ row ∈ stageCounts, ∀ count ∈ row, 0 ≤ count

section Layout

variable {pipelineLayout : LayoutValue} {ppSize vpSize : ℕ}

theorem normalizePipelineLayout_grid {rows : List (List LayoutValue)}
    (h : normalizePipelineLayout pipelineLayout ppSize = .ok (rows, vpSize)) :
    0 < vpSize ∧ rows.length = ppSize ∧ ∀ row ∈ rows, row.length = vpSize := by
  unfold normalizePipelineLayout at h
  split at h
  · obtain ⟨layout2d, -, h⟩ := Except.bind_eq_ok.mp h
    split_ifs at h with hlength
    obtain ⟨firstRow, -, h⟩ := Except.bind_eq_ok.mp h
    dsimp only at h
    split_ifs at h with hvp
    obtain ⟨rows', hrows, h⟩ := Except.bind_eq_ok.mp h
    obtain ⟨rfl, rfl⟩ := Prod.mk.inj (Except.ok.inj h)
    have hforall := Except.mapM_eq_ok.mp hrows
    refine ⟨Nat.pos_of_ne_zero hvp, ?_, ?_⟩
    · rw [← hforall.length_eq]
      exact not_not.mp hlength
    · intro row hrow
      obtain ⟨ppRow, -, hrow⟩ := exists_of_forall₂_mem_right hforall hrow
      obtain ⟨row', -, hrow⟩ := Except.bind_eq_ok.mp hrow
      split_ifs at hrow with hcolumns
      obtain rfl := Except.ok.inj hrow
      exact not_not.mp hcolumns
  · cases h

theorem buildStageLayerCountsFromLayout_grid {stageCounts : List (List ℤ)}
    (h : buildStageLayerCountsFromLayout pipelineLayout ppSize = .ok stageCounts) :
    ∃ vpSize, 0 < vpSize ∧ StageGrid ppSize vpSize stageCounts := by
  obtain ⟨⟨layout2d, vpSize⟩, hlayout, h⟩ := Except.bind_eq_ok.mp h
  obtain ⟨hvp, hrows, hcolumns⟩ := normalizePipelineLayout_grid hlayout
  have hforall := Except.mapM_eq_ok.mp h
  refine ⟨vpSize, hvp, ?_, ?_, ?_⟩
  · rw [← hforall.length_eq, hrows]
  · intro row hrow
    obtain ⟨stages, hstages, hrow⟩ := exists_of_forall₂_mem_right hforall hrow
    rw [← (Except.mapM_eq_ok.mp hrow).length_eq, hcolumns stages hstages]
  · intro row hrow count hcount
    obtain ⟨stages, -, hrow⟩ := exists_of_forall₂_mem_right hforall hrow
    obtain ⟨stage, -, hstage⟩ := exists_of_forall₂_mem_right (Except.mapM_eq_ok.mp hrow) hcount
    obtain ⟨layerTypes, -, hstage⟩ := Except.bind_eq_ok.mp hstage
    obtain rfl := Except.ok.inj hstage
    exact Int.natCast_nonneg _

end Layout

section Split

variable {numHiddenLayers : ℤ} {ppSize : ℕ} {tfConfig : TfPipelineConfig}

theorem layersPerPpRank_length {layersPerPp : List ℤ}
    (h : layersPerPpRank numHiddenLayers ppSize tfConfig = .ok layersPerPp) : layersPerPp.length = ppSize := by
  unfold layersPerPpRank at h
  dsimp only at h
  split_ifs at h
  all_goals
    obtain rfl := Except.ok.inj h
    rw [List.length_map, List.length_range]

theorem splitOverVpStages_shape {layersPerPp : List ℤ} {vpSize : ℕ} {perVp : List (List ℤ)}
    (h : splitOverVpStages layersPerPp vpSize = .ok perVp) :
    perVp.length = layersPerPp.length ∧ ∀ row ∈ perVp, row.length = vpSize := by
  have hforall := Except.mapM_eq_ok.mp h
  constructor
  · rw [← hforall.length_eq, List.length_zipIdx]
  · intro row hrow
    obtain ⟨⟨layers, ppRank⟩, -, hrow⟩ := exists_of_forall₂_mem_right hforall hrow
    simp only at hrow
    split_ifs at hrow
    all_goals
      obtain rfl := Except.ok.inj hrow
      exact List.length_replicate

theorem decrement_shape {stageCounts : List (List ℤ)} {vpSize : ℕ} (h : ∀ row ∈ stageCounts, row.length = vpSize)
    (ppRank vpStage : ℕ) :
    (decrement stageCounts ppRank vpStage).length = stageCounts.length ∧
      ∀ row ∈ decrement stageCounts ppRank vpStage, row.length = vpSize := by
  constructor
  · exact List.length_modify _ _ _
  · intro row hrow
    obtain ⟨i, hi⟩ := List.mem_iff_getElem?.mp hrow
    rw [decrement, List.getElem?_modify] at hi
    obtain ⟨row', hrow', hi⟩ := Option.map_eq_some_iff.mp hi
    have hlength := h row' (List.mem_of_getElem? hrow')
    split_ifs at hi
    · rw [← hi, List.length_modify, hlength]
    · rw [← hi, hlength]

theorem mem_stages {stageCounts : List (List ℤ)} {row : List ℤ} {count : ℤ} {ppRank vpStage : ℕ}
    (hrow : stageCounts[ppRank]? = some row) (hcount : row[vpStage]? = some count) :
    ((ppRank, vpStage), count) ∈ stageCounts.zipIdx.flatMap (fun (row, ppRank) =>
      row.zipIdx.map (fun (count, vpStage) => ((ppRank, vpStage), count))) := by
  rw [List.mem_flatMap]
  refine ⟨(row, ppRank), List.mk_mem_zipIdx_iff_getElem?.mpr hrow, ?_⟩
  exact List.mem_map.mpr ⟨(count, vpStage), List.mk_mem_zipIdx_iff_getElem?.mpr hcount, rfl⟩

theorem nonneg_of_negativeStage?_eq_none {stageCounts : List (List ℤ)} (h : negativeStage? stageCounts = none) :
    ∀ row ∈ stageCounts, ∀ count ∈ row, 0 ≤ count := by
  intro row hrow count hcount
  obtain ⟨ppRank, hrow⟩ := List.mem_iff_getElem?.mp hrow
  obtain ⟨vpStage, hcount⟩ := List.mem_iff_getElem?.mp hcount
  have hnot := List.find?_eq_none.mp h _ (mem_stages hrow hcount)
  simpa using hnot

theorem leaveOutEmbeddingAndLoss_shape (tfConfig : TfPipelineConfig) (ppSize : ℕ) {stageCounts : List (List ℤ)} {vpSize : ℕ}
    (h : ∀ row ∈ stageCounts, row.length = vpSize) :
    (leaveOutEmbeddingAndLoss tfConfig ppSize vpSize stageCounts).length = stageCounts.length ∧
      ∀ row ∈ leaveOutEmbeddingAndLoss tfConfig ppSize vpSize stageCounts, row.length = vpSize := by
  have hembed := decrement_shape h 0 0
  rw [leaveOutEmbeddingAndLoss]
  split_ifs
  · have hloss := decrement_shape hembed.2 (ppSize - 1) (vpSize - 1)
    exact ⟨hloss.1.trans hembed.1, hloss.2⟩
  · exact decrement_shape h (ppSize - 1) (vpSize - 1)
  · exact hembed
  · exact ⟨rfl, h⟩

theorem buildStageLayerCountsFromSplitConfig_grid {stageCounts : List (List ℤ)}
    (h : buildStageLayerCountsFromSplitConfig numHiddenLayers ppSize tfConfig = .ok stageCounts) :
    ∃ vpSize, 0 < vpSize ∧ StageGrid ppSize vpSize stageCounts := by
  unfold buildStageLayerCountsFromSplitConfig at h
  dsimp only at h
  split_ifs at h with hvp
  obtain ⟨layersPerPp, hlayers, h⟩ := Except.bind_eq_ok.mp h
  obtain ⟨perVp, hperVp, h⟩ := Except.bind_eq_ok.mp h
  obtain ⟨hrows, hcolumns⟩ := splitOverVpStages_shape hperVp
  have hshape := leaveOutEmbeddingAndLoss_shape tfConfig ppSize hcolumns
  split at h
  · cases h
  · rename_i hnonneg
    obtain rfl := Except.ok.inj h
    refine ⟨(splitVpSize ppSize tfConfig).toNat, by omega, ?_, hshape.2,
      nonneg_of_negativeStage?_eq_none hnonneg⟩
    rw [hshape.1, hrows, layersPerPpRank_length hlayers]

end Split

theorem buildStageLayerCounts_grid {numHiddenLayers : ℤ} {ppSize : ℕ} {tfConfig : TfPipelineConfig}
    {stageCounts : List (List ℤ)} (h : buildStageLayerCounts numHiddenLayers ppSize tfConfig = .ok stageCounts) :
    ∃ vpSize, 0 < vpSize ∧ StageGrid ppSize vpSize stageCounts := by
  unfold buildStageLayerCounts at h
  split at h
  · exact buildStageLayerCountsFromLayout_grid h
  · exact buildStageLayerCountsFromSplitConfig_grid h

namespace StageGrid

variable {ppSize vpSize : ℕ} {stageCounts : List (List ℤ)} (h : StageGrid ppSize vpSize stageCounts)

include h

theorem vpSize_eq (hpp : 0 < ppSize) : stageVpSize stageCounts = vpSize := by
  cases stageCounts with
  | nil => exact absurd h.rows (by simp; omega)
  | cons row rows => exact h.columns row List.mem_cons_self

theorem stageCount_nonneg (stage : ℕ × ℕ) : 0 ≤ stageCount stageCounts stage := by
  rw [stageCount, List.getD_eq_getElem?_getD, List.getD_eq_getElem?_getD]
  cases hrow : stageCounts[stage.1]? with
  | none => simp
  | some row =>
    rw [Option.getD_some]
    cases hcount : row[stage.2]? with
    | none => simp
    | some count => exact h.nonneg row (List.mem_of_getElem? hrow) count (List.mem_of_getElem? hcount)

theorem stageCounts_eq : stageCounts =
    (List.range ppSize).map (fun pp => (List.range vpSize).map (fun vp => stageCount stageCounts (pp, vp))) := by
  apply List.ext_getElem
  · rw [List.length_map, List.length_range, h.rows]
  · intro pp hpp _
    have hrow := h.columns _ (List.getElem_mem hpp)
    rw [List.getElem_map, List.getElem_range]
    apply List.ext_getElem
    · rw [List.length_map, List.length_range, hrow]
    · intro vp hvp _
      rw [List.getElem_map, List.getElem_range, stageCount, List.getD_eq_getElem _ _ hpp, List.getD_eq_getElem _ _ hvp]

theorem sum_stageOrder :
    ((stageOrder vpSize ppSize).map (stageCount stageCounts)).sum = (stageCounts.map List.sum).sum := by
  have hrows : (stageCounts.map List.sum).sum = ((List.range ppSize).map (fun pp =>
      ((List.range vpSize).map (fun vp => stageCount stageCounts (pp, vp))).sum)).sum := by
    conv_lhs => rw [h.stageCounts_eq, List.map_map]
    rfl
  rw [hrows, Offsets.sum_map_comm, stageOrder, List.map_flatMap, List.flatMap_def, List.sum_flatten]
  simp only [List.map_map, Function.comp_def]

end StageGrid

theorem mem_stageOrder {vpSize ppSize : ℕ} {stage : ℕ × ℕ} :
    stage ∈ stageOrder vpSize ppSize ↔ stage.1 < ppSize ∧ stage.2 < vpSize := by
  rw [stageOrder, List.mem_flatMap]
  constructor
  · rintro ⟨vp, hvp, hstage⟩
    obtain ⟨pp, hpp, rfl⟩ := List.mem_map.mp hstage
    exact ⟨List.mem_range.mp hpp, List.mem_range.mp hvp⟩
  · rintro ⟨hpp, hvp⟩
    exact ⟨stage.2, List.mem_range.mpr hvp, List.mem_map.mpr ⟨stage.1, List.mem_range.mpr hpp, rfl⟩⟩

theorem stageOrder_sorted (vpSize ppSize : ℕ) :
    (stageOrder vpSize ppSize).Pairwise (fun x y => toLex (x.2, x.1) < toLex (y.2, y.1)) :=
  stagePairs_sorted List.pairwise_lt_range ppSize

theorem stageOrder_nodup (vpSize ppSize : ℕ) : (stageOrder vpSize ppSize).Nodup := by
  apply (stageOrder_sorted vpSize ppSize).imp
  rintro x y h rfl
  exact lt_irrefl _ h

def stageLayerIds (stageCounts : List (List ℤ)) (vpSize ppSize : ℕ) (stage : ℕ × ℕ) : List ℤ :=
  let start := Offsets.offset (stageCount stageCounts) (stageOrder vpSize ppSize) stage
  Int.range start (start + stageCount stageCounts stage)

structure ResolvedPipeline (hfConfig : HfPipelineConfig) (tfConfig : TfPipelineConfig) (ppSize : ℤ) where
  numHiddenLayers : ℤ
  vpSize : ℕ
  stageCounts : List (List ℤ)
  configured : configuredLayers hfConfig tfConfig = some numHiddenLayers
  built : buildStageLayerCounts numHiddenLayers (max ppSize 1).toNat tfConfig = .ok stageCounts
  grid : StageGrid (max ppSize 1).toNat vpSize stageCounts
  total : (stageCounts.map List.sum).sum = numHiddenLayers

section Resolve

variable {hfConfig : HfPipelineConfig} {tfConfig : TfPipelineConfig} {ppSize : ℤ}

theorem exists_resolvedPipeline {ppRank : ℤ} {vpStage : Option ℤ} {ids : List ℤ}
    (h : resolvePpStageGlobalLayerIds ⟨ppRank, ppSize⟩ hfConfig tfConfig vpStage = .ok ids) :
    Nonempty (ResolvedPipeline hfConfig tfConfig ppSize) := by
  unfold resolvePpStageGlobalLayerIds at h
  split at h
  · cases h
  · rename_i numHiddenLayers hconfigured
    dsimp only at h
    split at h
    · cases h
    · obtain ⟨stageCounts, hbuilt, h⟩ := Except.bind_eq_ok.mp h
      split_ifs at h with hvp htotal
      obtain ⟨vpSize, -, hgrid⟩ := buildStageLayerCounts_grid hbuilt
      exact ⟨⟨numHiddenLayers, vpSize, stageCounts, hconfigured, hbuilt, hgrid, not_not.mp htotal⟩⟩

namespace ResolvedPipeline

variable (p : ResolvedPipeline hfConfig tfConfig ppSize)

theorem resolve_eq_ok_iff {ppRank vpStage : ℤ} {ids : List ℤ} :
    resolvePpStageGlobalLayerIds ⟨ppRank, ppSize⟩ hfConfig tfConfig (some vpStage) = .ok ids ↔
      (0 ≤ ppRank ∧ ppRank < max ppSize 1 ∧ 0 ≤ vpStage ∧ vpStage < p.vpSize) ∧
        stageLayerIds p.stageCounts p.vpSize (max ppSize 1).toNat (ppRank.toNat, vpStage.toNat) = ids := by
  have hvp : stageVpSize p.stageCounts = p.vpSize := p.grid.vpSize_eq (by omega)
  rw [resolvePpStageGlobalLayerIds, p.configured]
  dsimp only
  rw [p.built, Except.ok_bind, hvp]
  dsimp only [Option.getD_some]
  split_ifs with hrank hstage htotal
  · exact iff_of_false (by simp) (by omega)
  · exact iff_of_false (by simp) (by omega)
  · exact absurd p.total htotal
  · rw [Except.ok.injEq, stageLayerIds, Offsets.offset]
    exact (and_iff_right (by omega)).symm

theorem flatMap_stageLayerIds : (stageOrder p.vpSize (max ppSize 1).toNat).flatMap
    (stageLayerIds p.stageCounts p.vpSize (max ppSize 1).toNat) = Int.range 0 p.numHiddenLayers := by
  rw [← p.total, ← p.grid.sum_stageOrder]
  exact Offsets.flatMap_offset (fun stage _ => p.grid.stageCount_nonneg stage) (stageOrder_nodup _ _)

end ResolvedPipeline

end Resolve

end Awex
