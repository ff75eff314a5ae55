import Awex.LayerOrder
import Awex.Library.ExceptList

namespace Awex

open Text Ranking

def canonicalizeParamMeta (ppStageLayerIdMap : StageLayerMap) (ppRank : ℕ) (paramMeta : StageParamMeta) :
    Except ConvertError StageParamMeta :=
  (canonicalizePpLayerName ppStageLayerIdMap (ppRank, paramMeta.vpStage) paramMeta.name).map
    (fun name => { paramMeta with name })

def canonicalizePpLayerNamesInGlobalMeta (globalMetadata : List StageRankMeta) (ppStageLayerIdMap : StageLayerMap) :
    Except ConvertError (List StageRankMeta) :=
  if ppStageLayerIdMap.entries = [] then .ok globalMetadata
  else globalMetadata.mapM (fun rankMeta =>
    (rankMeta.paramsMeta.mapM (canonicalizeParamMeta ppStageLayerIdMap rankMeta.ppRank)).map
      (fun paramsMeta => { rankMeta with paramsMeta }))

def stageParams (globalMetadata : List StageRankMeta) : List ((ℕ × ℕ) × Name) :=
  globalMetadata.flatMap (fun rankMeta => rankMeta.paramsMeta.map (fun paramMeta =>
    ((rankMeta.ppRank, paramMeta.vpStage), paramMeta.name)))

def aroundLayerId (name : Name) : Option (Name × Name) := do
  let (before, after) ← splitFirst (".layers." : Name) name
  let (_, remaining) ← splitFirst ['.'] after
  return (before, remaining)

def canonicalName (ppStageLayerIdMap : StageLayerMap) (stageKey : ℕ × ℕ) (name : Name) : Name :=
  match (extractLayerIdFromParamName name).bind (globalLayer? ppStageLayerIdMap stageKey) with
  | none => name
  | some globalLayerId => replaceLayerIdInParamName name globalLayerId

def canonicalMeta (ppStageLayerIdMap : StageLayerMap) (globalMetadata : List StageRankMeta) : List StageRankMeta :=
  globalMetadata.map (fun rankMeta => { rankMeta with
    paramsMeta := rankMeta.paramsMeta.map (fun paramMeta => { paramMeta with
      name := canonicalName ppStageLayerIdMap (rankMeta.ppRank, paramMeta.vpStage) paramMeta.name }) })

theorem canonicalMeta_of_entries_nil {ppStageLayerIdMap : StageLayerMap} (h : ppStageLayerIdMap.entries = [])
    (globalMetadata : List StageRankMeta) : canonicalMeta ppStageLayerIdMap globalMetadata = globalMetadata := by
  have hname : ∀ stageKey name, canonicalName ppStageLayerIdMap stageKey name = name := by
    intro stageKey name
    rw [canonicalName]
    cases hlayer : (extractLayerIdFromParamName name).bind (globalLayer? ppStageLayerIdMap stageKey) with
    | none => rfl
    | some g =>
      obtain ⟨l, -, hl⟩ := Option.bind_eq_some_iff.mp hlayer
      obtain ⟨layerMap, hmap, -⟩ := Option.bind_eq_some_iff.mp hl
      rw [Dict.get?_eq_some, h] at hmap
      exact absurd hmap List.not_mem_nil
  simp [canonicalMeta, hname]

theorem stageParams_canonicalMeta (ppStageLayerIdMap : StageLayerMap) (globalMetadata : List StageRankMeta) :
    stageParams (canonicalMeta ppStageLayerIdMap globalMetadata) =
      (stageParams globalMetadata).map (fun p => (p.1, canonicalName ppStageLayerIdMap p.1 p.2)) := by
  simp only [stageParams, canonicalMeta, List.flatMap_map, List.map_flatMap, List.map_map, Function.comp_def]

section LayerNumber

variable {name name' : Name} {l l' : ℕ}

theorem extractLayerId_eq_some (h : extractLayerIdFromParamName name = some l) :
    ∃ before token remaining, splitFirst (".layers." : Name) name = some (before, token ++ (['.'] ++ remaining)) ∧
      splitFirst ['.'] (token ++ (['.'] ++ remaining)) = some (token, remaining) := by
  obtain ⟨⟨before, after⟩, hbefore, h⟩ := Option.bind_eq_some_iff.mp h
  obtain ⟨⟨token, remaining⟩, htoken, -⟩ := Option.bind_eq_some_iff.mp h
  obtain ⟨rfl, -⟩ := splitFirst_eq_some (List.cons_ne_nil _ _) htoken
  exact ⟨before, token, remaining, hbefore, htoken⟩

theorem replaceLayerId_spec (h : extractLayerIdFromParamName name = some l) (g : ℕ) :
    extractLayerIdFromParamName (replaceLayerIdInParamName name g) = some g ∧
      aroundLayerId (replaceLayerIdInParamName name g) = aroundLayerId name := by
  obtain ⟨before, token, remaining, hname, hafter⟩ := extractLayerId_eq_some h
  have hnew : splitFirst (".layers." : Name) (replaceLayerIdInParamName name g) =
      some (before, digits g ++ (['.'] ++ remaining)) := by
    rw [replaceLayerIdInParamName, hname]
    simp only [hafter, List.append_assoc]
    exact (splitFirst_eq_some (by decide) hname).2 _
  have hdigits : splitFirst ['.'] (digits g ++ (['.'] ++ remaining)) = some (digits g, remaining) :=
    splitFirst_append (not_mem_digits (by decide))
  constructor
  · rw [extractLayerIdFromParamName, hnew]
    simp only [Option.bind_eq_bind, Option.bind_some, hdigits, numeral?_digits]
  · rw [aroundLayerId, aroundLayerId, hnew, hname]
    simp only [Option.bind_eq_bind, Option.bind_some, hdigits, hafter]

theorem replaceLayerId_eq_iff (h : extractLayerIdFromParamName name = some l)
    (h' : extractLayerIdFromParamName name' = some l') (g g' : ℕ) :
    replaceLayerIdInParamName name g = replaceLayerIdInParamName name' g' ↔
      g = g' ∧ aroundLayerId name = aroundLayerId name' := by
  constructor
  · intro heq
    obtain ⟨hextract, haround⟩ := replaceLayerId_spec h g
    obtain ⟨hextract', haround'⟩ := replaceLayerId_spec h' g'
    rw [heq] at hextract haround
    exact ⟨Option.some.inj (hextract.symm.trans hextract'), haround.symm.trans haround'⟩
  · rintro ⟨rfl, haround⟩
    obtain ⟨before, token, remaining, hname, hafter⟩ := extractLayerId_eq_some h
    obtain ⟨before', token', remaining', hname', hafter'⟩ := extractLayerId_eq_some h'
    rw [aroundLayerId, aroundLayerId, hname, hname'] at haround
    simp only [Option.bind_eq_bind, Option.bind_some, hafter, hafter', Option.pure_def, Option.some_inj,
      Prod.mk.injEq] at haround
    obtain ⟨rfl, rfl⟩ := haround
    rw [replaceLayerIdInParamName, replaceLayerIdInParamName, hname, hname']
    simp only [hafter, hafter']

end LayerNumber

theorem mem_reportedLayers {globalMetadata : List StageRankMeta} {stageKey : ℕ × ℕ} {name : Name} {l : ℕ}
    (h : (stageKey, name) ∈ stageParams globalMetadata) (hname : extractLayerIdFromParamName name = some l) :
    (stageKey, l) ∈ reportedLayers globalMetadata := by
  obtain ⟨rankMeta, hrank, hmem⟩ := List.mem_flatMap.mp h
  obtain ⟨paramMeta, hparam, heq⟩ := List.mem_map.mp hmem
  rw [Prod.mk.injEq] at heq
  obtain ⟨rfl, rfl⟩ := heq
  exact List.mem_flatMap.mpr ⟨rankMeta, hrank, List.mem_filterMap.mpr ⟨paramMeta, hparam, by rw [hname]; rfl⟩⟩

section Renamed

variable {globalMetadata : List StageRankMeta} {ppSize : ℕ} (h : CommonPipeline ppSize globalMetadata)

include h

theorem CommonPipeline.layer_numbered {stageKey : ℕ × ℕ} {name : Name} {l : ℕ}
    (hmem : (stageKey, name) ∈ stageParams globalMetadata) (hname : extractLayerIdFromParamName name = some l) :
    ∃ g, globalLayer? (buildPpStageLayerIdMap globalMetadata) stageKey l = some g :=
  Option.isSome_iff_exists.mp ((h.numbers.isSome_iff (stageKey, l)).mpr
    ((h.mem_orderedLayers _).mpr (mem_reportedLayers hmem hname)))

theorem CommonPipeline.canonicalizePpLayerName {stageKey : ℕ × ℕ} {name : Name}
    (hmem : (stageKey, name) ∈ stageParams globalMetadata) :
    canonicalizePpLayerName (buildPpStageLayerIdMap globalMetadata) stageKey name =
      .ok (canonicalName (buildPpStageLayerIdMap globalMetadata) stageKey name) := by
  rw [Awex.canonicalizePpLayerName, canonicalName]
  cases hname : extractLayerIdFromParamName name with
  | none => simp
  | some l =>
    obtain ⟨g, hg⟩ := h.layer_numbered hmem hname
    obtain ⟨layerMap, hmap, hlayer⟩ := Option.bind_eq_some_iff.mp hg
    have hne : (buildPpStageLayerIdMap globalMetadata).entries ≠ [] := by
      intro hnil
      rw [Dict.get?_eq_some, hnil] at hmap
      exact List.not_mem_nil hmap
    simp only [if_neg hne, Option.bind_some, hg, hmap, hlayer]

theorem CommonPipeline.canonicalize_eq :
    canonicalizePpLayerNamesInGlobalMeta globalMetadata (buildPpStageLayerIdMap globalMetadata) =
      .ok (canonicalMeta (buildPpStageLayerIdMap globalMetadata) globalMetadata) := by
  rw [canonicalizePpLayerNamesInGlobalMeta]
  split_ifs with hnil
  · rw [canonicalMeta_of_entries_nil hnil]
  · apply Except.mapM_of_forall_ok
    intro rankMeta hrank
    rw [Except.map_eq_ok]
    refine ⟨_, Except.mapM_of_forall_ok ?_, rfl⟩
    intro paramMeta hparam
    have hmem : ((rankMeta.ppRank, paramMeta.vpStage), paramMeta.name) ∈ stageParams globalMetadata :=
      List.mem_flatMap.mpr ⟨rankMeta, hrank, List.mem_map_of_mem hparam⟩
    rw [canonicalizeParamMeta, h.canonicalizePpLayerName hmem, Except.map_ok]

theorem CommonPipeline.canonicalName_eq_iff {p q : (ℕ × ℕ) × Name} (hp : p ∈ stageParams globalMetadata)
    (hq : q ∈ stageParams globalMetadata) {l l' : ℕ} (hl : extractLayerIdFromParamName p.2 = some l)
    (hl' : extractLayerIdFromParamName q.2 = some l') :
    canonicalName (buildPpStageLayerIdMap globalMetadata) p.1 p.2 =
        canonicalName (buildPpStageLayerIdMap globalMetadata) q.1 q.2 ↔
      (p.1, l) = (q.1, l') ∧ aroundLayerId p.2 = aroundLayerId q.2 := by
  obtain ⟨g, hg⟩ := h.layer_numbered hp hl
  obtain ⟨g', hg'⟩ := h.layer_numbered hq hl'
  have hnumber : g = g' ↔ (p.1, l) = (q.1, l') := by
    constructor
    · rintro rfl
      exact h.numbers.injective (x := (p.1, l)) (y := (q.1, l')) hg hg'
    · intro heq
      rw [Prod.mk.injEq] at heq
      rw [heq.1, heq.2, hg'] at hg
      exact (Option.some.inj hg).symm
  rw [canonicalName, canonicalName, hl, hl', Option.bind_some, Option.bind_some, hg, hg']
  rw [replaceLayerId_eq_iff hl hl', hnumber]

/-- The layer map numbers the layers in the order of virtual stage, pipeline rank and local layer,
whatever the order of the ranks, and the renamed parameters agree exactly when their layers do. -/
theorem pipelineLayers_numbered :
    (∀ layer : (ℕ × ℕ) × ℕ, (globalLayer? (buildPpStageLayerIdMap globalMetadata) layer.1 layer.2).isSome ↔
      layer ∈ reportedLayers globalMetadata) ∧
    Set.BijOn (fun layer : (ℕ × ℕ) × ℕ =>
        (globalLayer? (buildPpStageLayerIdMap globalMetadata) layer.1 layer.2).getD 0)
      {layer | layer ∈ reportedLayers globalMetadata} (Set.Iio (reportedLayers globalMetadata).dedup.length) ∧
    (∀ (x y : (ℕ × ℕ) × ℕ) (i j : ℕ),
      globalLayer? (buildPpStageLayerIdMap globalMetadata) x.1 x.2 = some i →
      globalLayer? (buildPpStageLayerIdMap globalMetadata) y.1 y.2 = some j → (i < j ↔ layerKey x < layerKey y)) ∧
    (∀ permuted, globalMetadata.Perm permuted →
      buildPpStageLayerIdMap permuted = buildPpStageLayerIdMap globalMetadata) ∧
    ∃ renamed, canonicalizePpLayerNamesInGlobalMeta globalMetadata (buildPpStageLayerIdMap globalMetadata) =
        .ok renamed ∧
      (stageParams renamed).map Prod.fst = (stageParams globalMetadata).map Prod.fst ∧
      ∀ p ∈ (stageParams globalMetadata).zip (stageParams renamed),
        ∀ q ∈ (stageParams globalMetadata).zip (stageParams renamed), ∀ l l',
          extractLayerIdFromParamName p.1.2 = some l → extractLayerIdFromParamName q.1.2 = some l' →
            (p.2.2 = q.2.2 ↔ (p.1.1, l) = (q.1.1, l') ∧ aroundLayerId p.1.2 = aroundLayerId q.1.2) := by
  refine ⟨?_, ?_, ?_, ?_, _, h.canonicalize_eq, ?_, ?_⟩
  · intro layer
    exact (h.numbers.isSome_iff layer).trans (h.mem_orderedLayers layer)
  · have hbij := h.numbers.bijOn
    rw [h.length_orderedLayers] at hbij
    simpa only [h.mem_orderedLayers] using hbij
  · intro x y i j hx hy
    exact h.numbers.lt_iff (orderedLayers_sorted globalMetadata ppSize) hx hy
  · intro permuted hperm
    exact buildPpStageLayerIdMap_perm hperm h
  · rw [stageParams_canonicalMeta, List.map_map]
    rfl
  · rw [stageParams_canonicalMeta, ← List.map_prod_left_eq_zip]
    intro p hp q hq l l' hl hl'
    obtain ⟨p, hpmem, rfl⟩ := List.mem_map.mp hp
    obtain ⟨q, hqmem, rfl⟩ := List.mem_map.mp hq
    exact h.canonicalName_eq_iff hpmem hqmem hl hl'

end Renamed

def twoStageMeta : List StageRankMeta :=
  [⟨1, 2, [⟨"decoder.layers.1.w", 0⟩]⟩, ⟨0, 2, [⟨"decoder.layers.2.w", 0⟩, ⟨"decoder.layers.1.w", 0⟩]⟩,
    ⟨0, 2, [⟨"decoder.layers.1.w", 0⟩, ⟨"decoder.layers.2.w", 0⟩, ⟨"embedding.w", 0⟩]⟩]

theorem pipelineLayers_numbered_twoStages : CommonPipeline 2 twoStageMeta ∧
    Set.BijOn (fun layer : (ℕ × ℕ) × ℕ =>
        (globalLayer? (buildPpStageLayerIdMap twoStageMeta) layer.1 layer.2).getD 0)
      {layer | layer ∈ reportedLayers twoStageMeta} (Set.Iio (reportedLayers twoStageMeta).dedup.length) := by
  have h : CommonPipeline 2 twoStageMeta := by
    intro rankMeta hrank
    simp only [twoStageMeta, List.mem_cons, List.not_mem_nil, or_false] at hrank
    obtain rfl | rfl | rfl := hrank <;> exact ⟨rfl, by decide⟩
  exact ⟨h, (pipelineLayers_numbered h).2.1⟩

end Awex
