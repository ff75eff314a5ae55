import Awex.PipelineLayers

namespace Awex

open Offsets Ranking

/-- Every stage numbers its layers from `firstId`, and reports them all. -/
structure ReportsCounts (globalMetadata : List StageRankMeta) (stageCounts : List (List ℤ)) (vpSize ppSize : ℕ)
    (firstId : ℕ × ℕ → ℕ) : Prop where
  pipeline : CommonPipeline ppSize globalMetadata
  reported : ∀ stage localLayerId, (stage, localLayerId) ∈ reportedLayers globalMetadata ↔
    stage ∈ stageOrder vpSize ppSize ∧
      localLayerId ∈ List.range' (firstId stage) (stageCount stageCounts stage).toNat

section Counts

variable {globalMetadata : List StageRankMeta} {stageCounts : List (List ℤ)} {vpSize ppSize : ℕ}
  {firstId : ℕ × ℕ → ℕ}

def configuredStage (stageCounts : List (List ℤ)) (firstId : ℕ × ℕ → ℕ) (stage : ℕ × ℕ) : List ((ℕ × ℕ) × ℕ) :=
  (List.range' (firstId stage) (stageCount stageCounts stage).toNat).map (Prod.mk stage)

theorem length_configuredStages (firstId : ℕ × ℕ → ℕ) (hgrid : StageGrid ppSize vpSize stageCounts) (stages : List (ℕ × ℕ)) :
    ((stages.flatMap (configuredStage stageCounts firstId)).length : ℤ) =
      (stages.map (stageCount stageCounts)).sum := by
  induction stages with
  | nil => rfl
  | cons stage stages ih =>
    have hnonneg := hgrid.stageCount_nonneg stage
    rw [List.flatMap_cons, List.length_append, List.map_cons, List.sum_cons, ← ih, configuredStage, List.length_map,
      List.length_range']
    omega

namespace ReportsCounts

variable (h : ReportsCounts globalMetadata stageCounts vpSize ppSize firstId)

include h

theorem orderedLayers_eq : orderedLayers globalMetadata ppSize =
    (stageOrder vpSize ppSize).flatMap (configuredStage stageCounts firstId) := by
  apply eq_of_key_sorted layerKey (orderedLayers_sorted globalMetadata ppSize)
  · exact layers_sorted (stageOrder_sorted vpSize ppSize) (fun stage _ => List.pairwise_lt_range')
  · rintro ⟨stage, l⟩
    rw [h.pipeline.mem_orderedLayers, h.reported, List.mem_flatMap]
    constructor
    · rintro ⟨hstage, hl⟩
      exact ⟨stage, hstage, List.mem_map_of_mem hl⟩
    · rintro ⟨stage', hstage, hmem⟩
      obtain ⟨l', hl, heq⟩ := List.mem_map.mp hmem
      obtain ⟨rfl, rfl⟩ := Prod.mk.inj heq
      exact ⟨hstage, hl⟩

theorem stageLocalIds_eq {stage : ℕ × ℕ} (hstage : stage ∈ stageOrder vpSize ppSize) :
    stageLocalIds globalMetadata stage =
      List.range' (firstId stage) (stageCount stageCounts stage).toNat := by
  apply eq_of_key_sorted id (stageLocalIds_sorted globalMetadata stage) List.pairwise_lt_range'
  intro l
  rw [mem_stageLocalIds, h.reported]
  exact and_iff_right hstage

theorem globalLayer?_first (hgrid : StageGrid ppSize vpSize stageCounts) {stage : ℕ × ℕ}
    (hstage : stage ∈ stageOrder vpSize ppSize) (hcount : 0 < stageCount stageCounts stage) :
    globalLayer? (buildPpStageLayerIdMap globalMetadata) stage (firstId stage) =
      some (offset (stageCount stageCounts) (stageOrder vpSize ppSize) stage).toNat := by
  obtain ⟨front, back, horder⟩ := List.append_of_mem hstage
  have hfront : stage ∉ front := by
    have hnodup := stageOrder_nodup vpSize ppSize
    rw [horder, List.nodup_append] at hnodup
    exact fun hmem => hnodup.2.2 stage hmem stage List.mem_cons_self rfl
  have hlength := length_configuredStages firstId hgrid front
  have hoffset : (offset (stageCount stageCounts) (stageOrder vpSize ppSize) stage).toNat =
      (front.flatMap (configuredStage stageCounts firstId)).length := by
    rw [horder, offset_middle _ hfront, ← hlength, Int.toNat_natCast]
  have hnumber := h.pipeline.numbers (stage, firstId stage)
    (offset (stageCount stageCounts) (stageOrder vpSize ppSize) stage).toNat
  apply hnumber.mpr
  obtain ⟨n, hn⟩ : ∃ n, (stageCount stageCounts stage).toNat = n + 1 :=
    Nat.exists_eq_succ_of_ne_zero (by omega)
  rw [h.orderedLayers_eq, hoffset, horder, List.flatMap_append, List.getElem?_append_right le_rfl, Nat.sub_self,
    List.flatMap_cons, configuredStage, hn, List.range'_succ]
  rfl

theorem stageMap_values (hgrid : StageGrid ppSize vpSize stageCounts) {stage : ℕ × ℕ}
    (hstage : stage ∈ stageOrder vpSize ppSize) (hcount : 0 < stageCount stageCounts stage) :
    ∃ layerMap, (buildPpStageLayerIdMap globalMetadata).get? stage = some layerMap ∧
      (layerMap.values.insertionSort (· ≤ ·)).map Nat.cast = stageLayerIds stageCounts vpSize ppSize stage := by
  have hfirst := h.globalLayer?_first hgrid hstage hcount
  have hoffset := offset_nonneg hgrid.stageCount_nonneg (stageOrder vpSize ppSize) stage
  have hnodup := stageLocalIds_nodup globalMetadata stage
  obtain ⟨layerMap, hmap, hlayer⟩ := Option.bind_eq_some_iff.mp hfirst
  refine ⟨layerMap, hmap, ?_⟩
  obtain ⟨start, rfl⟩ : ∃ start, layerMap = Dict.ofList ((stageLocalIds globalMetadata stage).zipIdx start) := by
    rw [h.pipeline.build_eq] at hmap
    obtain ⟨-, start, hget⟩ | ⟨-, hget⟩ := foldl_addStage_get? globalMetadata (stageKeys globalMetadata ppSize)
      (Dict.empty, 0) stage
    · exact ⟨start, Option.some.inj (hmap.symm.trans hget)⟩
    · rw [hget] at hmap
      cases hmap
  have hstart : start = (offset (stageCount stageCounts) (stageOrder vpSize ppSize) stage).toNat := by
    rw [layerMap_get? hnodup, List.mk_mem_zipIdx_iff_le_and_getElem?_sub, h.stageLocalIds_eq hstage] at hlayer
    obtain ⟨hle, hget⟩ := hlayer
    obtain ⟨_, hget⟩ := List.getElem?_eq_some_iff.mp hget
    rw [List.getElem_range'] at hget
    omega
  have hvalues : (Dict.ofList ((stageLocalIds globalMetadata stage).zipIdx start)).values =
      List.range' start (stageCount stageCounts stage).toNat := by
    rw [Dict.values, Dict.entries_ofList (by rwa [List.zipIdx_map_fst]), List.zipIdx_map_snd,
      h.stageLocalIds_eq hstage, List.length_range']
  have hsorted : (List.range' start (stageCount stageCounts stage).toNat).Pairwise (· ≤ ·) :=
    List.pairwise_le_range'
  rw [hvalues, hsorted.insertionSort_eq, List.range'_eq_map_range, List.map_map, stageLayerIds, Int.range,
    add_sub_cancel_left]
  apply List.map_congr_left
  intro i _
  simp only [Function.comp_apply, Int.natCast_add]
  omega

end ReportsCounts

end Counts

theorem length_intRange (a b : ℤ) : (Int.range a b).length = (b - a).toNat := by
  rw [Int.range, List.length_map, List.length_range]

section Config

variable {hfConfig : HfPipelineConfig} {tfConfig : TfPipelineConfig} {ppSize : ℤ}

theorem ResolvedPipeline.resolve_stage (p : ResolvedPipeline hfConfig tfConfig ppSize) {stage : ℕ × ℕ} {ids : List ℤ} :
    resolvePpStageGlobalLayerIds ⟨stage.1, ppSize⟩ hfConfig tfConfig (some stage.2) = .ok ids ↔
      stage ∈ stageOrder p.vpSize (max ppSize 1).toNat ∧
        stageLayerIds p.stageCounts p.vpSize (max ppSize 1).toNat stage = ids := by
  rw [p.resolve_eq_ok_iff, mem_stageOrder, Int.toNat_natCast, Int.toNat_natCast]
  refine and_congr_left (fun _ => ?_)
  omega

theorem ResolvedPipeline.length_stageLayerIds (p : ResolvedPipeline hfConfig tfConfig ppSize) (stage : ℕ × ℕ) :
    (stageLayerIds p.stageCounts p.vpSize (max ppSize 1).toNat stage).length =
      (stageCount p.stageCounts stage).toNat := by
  rw [stageLayerIds, length_intRange, add_sub_cancel_left]

/-- Where the configuration gives one stage its layers, it gives the layers of the model to the stages
in order, and the layer map of the metadata gives each stage the same layers. -/
theorem resolvedLayers_agree {ppRank : ℤ} {vpStage : Option ℤ} {resolved : List ℤ}
    (h : resolvePpStageGlobalLayerIds ⟨ppRank, ppSize⟩ hfConfig tfConfig vpStage = .ok resolved) :
    ∃ numHiddenLayers vpSize : ℕ, configuredLayers hfConfig tfConfig = some (numHiddenLayers : ℤ) ∧
      (∀ ppRank vpStage : ℤ,
        (∃ ids, resolvePpStageGlobalLayerIds ⟨ppRank, ppSize⟩ hfConfig tfConfig (some vpStage) = .ok ids) ↔
          0 ≤ ppRank ∧ ppRank < max ppSize 1 ∧ 0 ≤ vpStage ∧ vpStage < vpSize) ∧
      (((stageOrder vpSize (max ppSize 1).toNat).mapM (fun stage =>
        resolvePpStageGlobalLayerIds ⟨stage.1, ppSize⟩ hfConfig tfConfig (some stage.2))).map List.flatten =
          .ok (Int.range 0 numHiddenLayers)) ∧
      ∀ (metaPpSize : ℕ) (globalMetadata : List StageRankMeta) (firstId : ℕ × ℕ → ℕ), ppSize = metaPpSize →
        CommonPipeline metaPpSize globalMetadata →
        (∀ stage localLayerId, (stage, localLayerId) ∈ reportedLayers globalMetadata ↔
          ∃ ids, resolvePpStageGlobalLayerIds ⟨stage.1, ppSize⟩ hfConfig tfConfig (some stage.2) = .ok ids ∧
            firstId stage ≤ localLayerId ∧ localLayerId < firstId stage + ids.length) →
        ∀ (stage : ℕ × ℕ) (ids : List ℤ),
          resolvePpStageGlobalLayerIds ⟨stage.1, ppSize⟩ hfConfig tfConfig (some stage.2) = .ok ids → ids ≠ [] →
          ∃ layerMap, (buildPpStageLayerIdMap globalMetadata).get? stage = some layerMap ∧
            (layerMap.values.insertionSort (· ≤ ·)).map Nat.cast = ids := by
  obtain ⟨p⟩ := exists_resolvedPipeline h
  obtain ⟨numHiddenLayers, hn⟩ : ∃ n : ℕ, p.numHiddenLayers = n := by
    apply Int.eq_ofNat_of_zero_le
    rw [← p.total, ← p.grid.sum_stageOrder]
    apply List.sum_nonneg
    intro count hcount
    obtain ⟨stage, -, rfl⟩ := List.mem_map.mp hcount
    exact p.grid.stageCount_nonneg stage
  refine ⟨numHiddenLayers, p.vpSize, hn ▸ p.configured, ?_, ?_, ?_⟩
  · intro ppRank vpStage
    simp only [p.resolve_eq_ok_iff, exists_and_left, exists_eq', and_true]
  · rw [Except.map_eq_ok]
    refine ⟨_, Except.mapM_of_forall_ok (g := stageLayerIds p.stageCounts p.vpSize (max ppSize 1).toNat) ?_, ?_⟩
    · intro stage hstage
      exact p.resolve_stage.mpr ⟨hstage, rfl⟩
    · rw [← List.flatMap_def, p.flatMap_stageLayerIds, hn]
  · intro metaPpSize globalMetadata firstId hsize hpipeline hreported stage ids hids hne
    obtain ⟨hstage, rfl⟩ := p.resolve_stage.mp hids
    have hcount : 0 < stageCount p.stageCounts stage := by
      have hlength := p.length_stageLayerIds stage
      have hpos := List.length_pos_of_ne_nil hne
      omega
    have hreports : ReportsCounts globalMetadata p.stageCounts p.vpSize (max ppSize 1).toNat firstId := by
      constructor
      · intro rankMeta hrank
        obtain ⟨hppSize, hppRank⟩ := hpipeline rankMeta hrank
        omega
      · intro stage' localLayerId
        rw [hreported, List.mem_range'_1, ← p.length_stageLayerIds]
        constructor
        · rintro ⟨ids, hids, hlower, hupper⟩
          obtain ⟨hstage, rfl⟩ := p.resolve_stage.mp hids
          exact ⟨hstage, hlower, hupper⟩
        · rintro ⟨hstage, hlower, hupper⟩
          exact ⟨_, p.resolve_stage.mpr ⟨hstage, rfl⟩, hlower, hupper⟩
    exact hreports.stageMap_values p.grid hstage hcount

end Config

def fourStageConfig : TfPipelineConfig := ⟨none, none, none, none, true, true, some 2⟩

theorem resolvedLayers_agree_fourStages :
    resolvePpStageGlobalLayerIds ⟨1, 2⟩ ⟨some 6⟩ fourStageConfig none = .ok [1, 2] ∧
      ∃ numHiddenLayers vpSize : ℕ, configuredLayers ⟨some 6⟩ fourStageConfig = some (numHiddenLayers : ℤ) ∧
        ((stageOrder vpSize (max (2 : ℤ) 1).toNat).mapM (fun stage =>
          resolvePpStageGlobalLayerIds ⟨stage.1, 2⟩ ⟨some 6⟩ fourStageConfig (some stage.2))).map List.flatten =
            .ok (Int.range 0 numHiddenLayers) := by
  have h : resolvePpStageGlobalLayerIds ⟨1, 2⟩ ⟨some 6⟩ fourStageConfig none = .ok [1, 2] := by rfl
  obtain ⟨numHiddenLayers, vpSize, hconfigured, -, hrange, -⟩ := resolvedLayers_agree h
  exact ⟨h, numHiddenLayers, vpSize, hconfigured, hrange⟩

end Awex
