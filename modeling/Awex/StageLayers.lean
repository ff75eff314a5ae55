import Awex.McoreConverter
import Mathlib.Data.List.Dedup

namespace Awex

open Text

structure StageParamMeta where
  name : Name
  vpStage : ℕ

structure StageRankMeta where
  ppRank : ℕ
  ppSize : ℕ
  paramsMeta : List StageParamMeta

/-- Superscript digits, which `isdigit` lets pass and `int` rejects, are taken for no number. -/
def extractLayerIdFromParamName (name : Name) : Option ℕ := do
  let (_, after) ← splitFirst (".layers." : Name) name
  let (token, _) ← splitFirst ['.'] after
  numeral? token

def replaceLayerIdInParamName (name : Name) (newLayerId : ℕ) : Name :=
  match splitFirst (".layers." : Name) name with
  | none => name
  | some (before, after) => match splitFirst ['.'] after with
    | none => name
    | some (_, remaining) => before ++ (".layers." : Name) ++ digits newLayerId ++ ("." : Name) ++ remaining

def reportedLayers (globalMetadata : List StageRankMeta) : List ((ℕ × ℕ) × ℕ) :=
  globalMetadata.flatMap (fun rankMeta => rankMeta.paramsMeta.filterMap (fun paramMeta =>
    (extractLayerIdFromParamName paramMeta.name).map (fun localLayerId =>
      ((rankMeta.ppRank, paramMeta.vpStage), localLayerId))))

def stageLocalIds (globalMetadata : List StageRankMeta) (stageKey : ℕ × ℕ) : List ℕ :=
  (((reportedLayers globalMetadata).filter (·.1 = stageKey)).map (·.2)).dedup.insertionSort (· ≤ ·)

def vpStages (globalMetadata : List StageRankMeta) : List ℕ :=
  ((reportedLayers globalMetadata).map (·.1.2)).dedup.insertionSort (· ≤ ·)

def stageKeys (globalMetadata : List StageRankMeta) (ppSize : ℕ) : List (ℕ × ℕ) :=
  ((vpStages globalMetadata).flatMap (fun vpStage => (List.range ppSize).map (·, vpStage))).filter
    (fun stageKey => stageLocalIds globalMetadata stageKey ≠ [])

def addStage (globalMetadata : List StageRankMeta) (state : StageLayerMap × ℕ) (stageKey : ℕ × ℕ) :
    StageLayerMap × ℕ :=
  let localIds := stageLocalIds globalMetadata stageKey
  (state.1.set stageKey (Dict.ofList (localIds.zipIdx state.2)), state.2 + localIds.length)

def buildPpStageLayerIdMap (globalMetadata : List StageRankMeta) : StageLayerMap :=
  match globalMetadata with
  | [] => Dict.empty
  | first :: _ => ((stageKeys globalMetadata first.ppSize).foldl (addStage globalMetadata) (Dict.empty, 0)).1

def canonicalizePpLayerName (ppStageLayerIdMap : StageLayerMap) (stageKey : ℕ × ℕ) (name : Name) :
    Except ConvertError Name :=
  if ppStageLayerIdMap.entries = [] then .ok name
  else match extractLayerIdFromParamName name with
    | none => .ok name
    | some localLayerId => match ppStageLayerIdMap.get? stageKey with
      | none => .error (.missingStageMap stageKey.1 stageKey.2 name)
      | some layerMap => match layerMap.get? localLayerId with
        | none => .error (.missingLocalLayer localLayerId stageKey.1 stageKey.2 name)
        | some globalLayerId => .ok (replaceLayerIdInParamName name globalLayerId)

def globalLayer? (ppMap : StageLayerMap) (stageKey : ℕ × ℕ) (localLayerId : ℕ) : Option ℕ :=
  (ppMap.get? stageKey).bind (fun layerMap => layerMap.get? localLayerId)

theorem stageLocalIds_nodup (globalMetadata : List StageRankMeta) (stageKey : ℕ × ℕ) :
    (stageLocalIds globalMetadata stageKey).Nodup := by
  rw [stageLocalIds, (List.perm_insertionSort _ _).nodup_iff]
  exact List.nodup_dedup _

theorem mem_stageLocalIds {globalMetadata : List StageRankMeta} {stageKey : ℕ × ℕ} {localLayerId : ℕ} :
    localLayerId ∈ stageLocalIds globalMetadata stageKey ↔
      (stageKey, localLayerId) ∈ reportedLayers globalMetadata := by
  rw [stageLocalIds, List.mem_insertionSort, List.mem_dedup, List.mem_map]
  constructor
  · rintro ⟨⟨key, l⟩, h, rfl⟩
    obtain ⟨hmem, hkey⟩ := List.mem_filter.mp h
    obtain rfl : key = stageKey := by simpa using hkey
    exact hmem
  · intro h
    exact ⟨_, List.mem_filter.mpr ⟨h, by simp⟩, rfl⟩

theorem foldl_addStage_get? (globalMetadata : List StageRankMeta) (keys : List (ℕ × ℕ))
    (state : StageLayerMap × ℕ) (stageKey : ℕ × ℕ) :
    (stageKey ∈ keys ∧ ∃ start, (keys.foldl (addStage globalMetadata) state).1.get? stageKey =
      some (Dict.ofList ((stageLocalIds globalMetadata stageKey).zipIdx start))) ∨
    (stageKey ∉ keys ∧ (keys.foldl (addStage globalMetadata) state).1.get? stageKey = state.1.get? stageKey) := by
  induction keys generalizing state with
  | nil => exact .inr ⟨List.not_mem_nil, rfl⟩
  | cons key keys ih =>
    rw [List.foldl_cons]
    obtain ⟨hmem, h⟩ | ⟨hmem, h⟩ := ih (addStage globalMetadata state key)
    · exact .inl ⟨List.mem_cons_of_mem key hmem, h⟩
    · rw [h]
      simp only [addStage, Dict.get?_set]
      split_ifs with hkey
      · subst hkey
        exact .inl ⟨List.mem_cons_self, state.2, rfl⟩
      · exact .inr ⟨by simp [hmem, Ne.symm hkey], rfl⟩

theorem mem_stageKeys {globalMetadata : List StageRankMeta} {ppSize ppRank vpStage localLayerId : ℕ}
    (hrank : ppRank < ppSize) (h : ((ppRank, vpStage), localLayerId) ∈ reportedLayers globalMetadata) :
    (ppRank, vpStage) ∈ stageKeys globalMetadata ppSize := by
  rw [stageKeys, List.mem_filter, List.mem_flatMap]
  refine ⟨⟨vpStage, ?_, List.mem_map.mpr ⟨ppRank, List.mem_range.mpr hrank, rfl⟩⟩, ?_⟩
  · rw [vpStages, List.mem_insertionSort, List.mem_dedup]
    exact List.mem_map.mpr ⟨_, h, rfl⟩
  · simpa using List.ne_nil_of_mem (mem_stageLocalIds.mpr h)

theorem layerMap_get? {ids : List ℕ} (hnodup : ids.Nodup) {start l g : ℕ} :
    (Dict.ofList (ids.zipIdx start)).get? l = some g ↔ (l, g) ∈ ids.zipIdx start := by
  constructor
  · exact Dict.mem_of_get?_ofList _ _ _
  · intro h
    apply Dict.get?_ofList_of_nodup
    · rwa [List.zipIdx_map_fst]
    · exact h

structure StageMapped (ppStageLayerIdMap : StageLayerMap) (stageKey : ℕ × ℕ) (layerMap : Dict ℕ ℕ) : Prop where
  stage : ppStageLayerIdMap.get? stageKey = some layerMap
  injective : ∀ l l' g, layerMap.get? l = some g → layerMap.get? l' = some g → l = l'

theorem buildPpStageLayerIdMap_mapped {first : StageRankMeta} {rest : List StageRankMeta}
    {ppRank vpStage localLayerId : ℕ} (hrank : ppRank < first.ppSize)
    (h : ((ppRank, vpStage), localLayerId) ∈ reportedLayers (first :: rest)) :
    ∃ layerMap globalLayerId, StageMapped (buildPpStageLayerIdMap (first :: rest)) (ppRank, vpStage) layerMap ∧
      layerMap.get? localLayerId = some globalLayerId := by
  have hnodup := stageLocalIds_nodup (first :: rest) (ppRank, vpStage)
  obtain ⟨-, start, hget⟩ | ⟨hmem, -⟩ := foldl_addStage_get? (first :: rest)
    (stageKeys (first :: rest) first.ppSize) (Dict.empty, 0) (ppRank, vpStage)
  · obtain ⟨i, hi⟩ := List.mem_iff_getElem?.mp (mem_stageLocalIds.mpr h)
    refine ⟨_, start + i, ⟨hget, ?_⟩, ?_⟩
    · intro l l' g hl hl'
      rw [layerMap_get? hnodup, List.mk_mem_zipIdx_iff_le_and_getElem?_sub] at hl hl'
      exact Option.some.inj (hl.2.symm.trans hl'.2)
    · rw [layerMap_get? hnodup, List.mk_mem_zipIdx_iff_le_and_getElem?_sub]
      exact ⟨Nat.le_add_right start i, by rwa [Nat.add_sub_cancel_left]⟩
  · exact absurd (mem_stageKeys hrank h) hmem

end Awex
