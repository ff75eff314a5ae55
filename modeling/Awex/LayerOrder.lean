import Awex.StageLayers
import Awex.Library.Ranking
import Mathlib.Data.Prod.Lex

namespace Awex

open Text Ranking

def layerKey (layer : (ℕ × ℕ) × ℕ) : ℕ ×ₗ (ℕ ×ₗ ℕ) := toLex (layer.1.2, toLex (layer.1.1, layer.2))

def stageLayers (globalMetadata : List StageRankMeta) (stageKey : ℕ × ℕ) : List ((ℕ × ℕ) × ℕ) :=
  (stageLocalIds globalMetadata stageKey).map (Prod.mk stageKey)

def orderedLayers (globalMetadata : List StageRankMeta) (ppSize : ℕ) : List ((ℕ × ℕ) × ℕ) :=
  (stageKeys globalMetadata ppSize).flatMap (stageLayers globalMetadata)

theorem stagePairs_sorted {vpStages : List ℕ} (h : vpStages.Pairwise (· < ·)) (ppSize : ℕ) :
    (vpStages.flatMap (fun vpStage => (List.range ppSize).map (·, vpStage))).Pairwise
      (fun x y => toLex (x.2, x.1) < toLex (y.2, y.1)) := by
  rw [List.pairwise_flatMap]
  constructor
  · intro vpStage _
    rw [List.pairwise_map]
    apply List.pairwise_lt_range.imp
    intro a b hab
    exact Prod.Lex.toLex_lt_toLex.mpr (.inr ⟨rfl, hab⟩)
  · apply h.imp
    intro v w hvw x hx y hy
    obtain ⟨a, -, rfl⟩ := List.mem_map.mp hx
    obtain ⟨b, -, rfl⟩ := List.mem_map.mp hy
    exact Prod.Lex.toLex_lt_toLex.mpr (.inl hvw)

theorem layers_sorted {stageKeys : List (ℕ × ℕ)} {localIds : ℕ × ℕ → List ℕ}
    (hkeys : stageKeys.Pairwise (fun x y => toLex (x.2, x.1) < toLex (y.2, y.1)))
    (hids : ∀ key ∈ stageKeys, (localIds key).Pairwise (· < ·)) :
    (stageKeys.flatMap (fun key => (localIds key).map (Prod.mk key))).Pairwise
      (fun x y => layerKey x < layerKey y) := by
  rw [List.pairwise_flatMap]
  constructor
  · intro key hkey
    rw [List.pairwise_map]
    apply (hids key hkey).imp
    intro l l' hl
    exact Prod.Lex.toLex_lt_toLex.mpr (.inr ⟨rfl, Prod.Lex.toLex_lt_toLex.mpr (.inr ⟨rfl, hl⟩)⟩)
  · apply hkeys.imp
    intro key key' hlt x hx y hy
    obtain ⟨l, -, rfl⟩ := List.mem_map.mp hx
    obtain ⟨l', -, rfl⟩ := List.mem_map.mp hy
    rcases Prod.Lex.toLex_lt_toLex.mp hlt with hvp | ⟨hvp, hpp⟩
    · exact Prod.Lex.toLex_lt_toLex.mpr (.inl hvp)
    · exact Prod.Lex.toLex_lt_toLex.mpr (.inr ⟨hvp, Prod.Lex.toLex_lt_toLex.mpr (.inl hpp)⟩)

section StageMap

variable (globalMetadata : List StageRankMeta)

theorem mem_stageLayers {stageKey : ℕ × ℕ} {layer : (ℕ × ℕ) × ℕ} :
    layer ∈ stageLayers globalMetadata stageKey ↔ layer.1 = stageKey ∧ layer ∈ reportedLayers globalMetadata := by
  rw [stageLayers, List.mem_map]
  constructor
  · rintro ⟨l, hl, rfl⟩
    exact ⟨rfl, mem_stageLocalIds.mp hl⟩
  · rintro ⟨rfl, h⟩
    exact ⟨layer.2, mem_stageLocalIds.mpr h, rfl⟩

theorem foldl_addStage_next (keys : List (ℕ × ℕ)) (state : StageLayerMap × ℕ) :
    (keys.foldl (addStage globalMetadata) state).2 =
      state.2 + (keys.flatMap (stageLayers globalMetadata)).length := by
  induction keys generalizing state with
  | nil => rfl
  | cons key keys ih =>
    rw [List.foldl_cons, ih, List.flatMap_cons, List.length_append, stageLayers, List.length_map, addStage]
    omega

theorem stageMap_get? (front back : List (ℕ × ℕ)) {key : ℕ × ℕ} (hback : key ∉ back) (state : StageLayerMap × ℕ) :
    ((front ++ key :: back).foldl (addStage globalMetadata) state).1.get? key =
      some (Dict.ofList ((stageLocalIds globalMetadata key).zipIdx
        (state.2 + (front.flatMap (stageLayers globalMetadata)).length))) := by
  rw [List.foldl_append, List.foldl_cons]
  obtain ⟨hmem, -⟩ | ⟨-, h⟩ := foldl_addStage_get? globalMetadata back
    (addStage globalMetadata (front.foldl (addStage globalMetadata) state) key) key
  · exact absurd hmem hback
  · rw [h, addStage, Dict.get?_set, if_pos rfl, foldl_addStage_next]

theorem vpStages_sorted : (vpStages globalMetadata).Pairwise (· < ·) := by
  have hle := List.pairwise_insertionSort (· ≤ ·) ((reportedLayers globalMetadata).map (·.1.2)).dedup
  have hne : (vpStages globalMetadata).Nodup := by
    rw [vpStages, (List.perm_insertionSort _ _).nodup_iff]
    exact List.nodup_dedup _
  exact (hle.and hne).imp (fun h => lt_of_le_of_ne h.1 h.2)

theorem stageLocalIds_sorted (stageKey : ℕ × ℕ) : (stageLocalIds globalMetadata stageKey).Pairwise (· < ·) := by
  have hle := List.pairwise_insertionSort (· ≤ ·)
    (((reportedLayers globalMetadata).filter (·.1 = stageKey)).map (·.2)).dedup
  exact (hle.and (stageLocalIds_nodup globalMetadata stageKey)).imp (fun h => lt_of_le_of_ne h.1 h.2)

theorem stageKeys_sorted (ppSize : ℕ) :
    (stageKeys globalMetadata ppSize).Pairwise (fun x y => toLex (x.2, x.1) < toLex (y.2, y.1)) := by
  apply List.Pairwise.filter
  exact stagePairs_sorted (vpStages_sorted globalMetadata) ppSize

theorem stageKeys_nodup (ppSize : ℕ) : (stageKeys globalMetadata ppSize).Nodup := by
  apply (stageKeys_sorted globalMetadata ppSize).imp
  rintro x y h rfl
  exact lt_irrefl _ h

theorem orderedLayers_sorted (ppSize : ℕ) :
    (orderedLayers globalMetadata ppSize).Pairwise (fun x y => layerKey x < layerKey y) :=
  layers_sorted (stageKeys_sorted globalMetadata ppSize) (fun key _ => stageLocalIds_sorted globalMetadata key)

end StageMap

/-- The pipeline that all ranks report is one. -/
def CommonPipeline (ppSize : ℕ) (globalMetadata : List StageRankMeta) : Prop :=
  ∀ rankMeta ∈ globalMetadata, rankMeta.ppSize = ppSize ∧ rankMeta.ppRank < ppSize

section Numbers

variable {globalMetadata : List StageRankMeta} {ppSize : ℕ} (h : CommonPipeline ppSize globalMetadata)

include h

theorem CommonPipeline.build_eq : buildPpStageLayerIdMap globalMetadata =
    ((stageKeys globalMetadata ppSize).foldl (addStage globalMetadata) (Dict.empty, 0)).1 := by
  cases globalMetadata with
  | nil => rfl
  | cons first rest => rw [← (h first List.mem_cons_self).1]; rfl

theorem CommonPipeline.ppRank_lt {layer : (ℕ × ℕ) × ℕ} (hlayer : layer ∈ reportedLayers globalMetadata) :
    layer.1.1 < ppSize := by
  obtain ⟨rankMeta, hrank, hmem⟩ := List.mem_flatMap.mp hlayer
  obtain ⟨paramMeta, -, hparam⟩ := List.mem_filterMap.mp hmem
  obtain ⟨localLayerId, -, rfl⟩ := Option.map_eq_some_iff.mp hparam
  exact (h rankMeta hrank).2

theorem CommonPipeline.mem_orderedLayers (layer : (ℕ × ℕ) × ℕ) :
    layer ∈ orderedLayers globalMetadata ppSize ↔ layer ∈ reportedLayers globalMetadata := by
  rw [orderedLayers, List.mem_flatMap]
  constructor
  · rintro ⟨key, -, hlayer⟩
    exact ((mem_stageLayers globalMetadata).mp hlayer).2
  · intro hlayer
    exact ⟨layer.1, mem_stageKeys (h.ppRank_lt hlayer) hlayer, (mem_stageLayers globalMetadata).mpr ⟨rfl, hlayer⟩⟩

theorem CommonPipeline.numbers : Numbers
    (fun layer => globalLayer? (buildPpStageLayerIdMap globalMetadata) layer.1 layer.2)
    (orderedLayers globalMetadata ppSize) := by
  rintro ⟨key, l⟩ g
  change globalLayer? _ key l = some g ↔ _
  rw [h.build_eq]
  have hnodup := stageKeys_nodup globalMetadata ppSize
  by_cases hkey : key ∈ stageKeys globalMetadata ppSize
  · obtain ⟨front, back, hkeys⟩ := List.append_of_mem hkey
    rw [hkeys, List.nodup_append] at hnodup
    have hback : key ∉ back := (List.nodup_cons.mp hnodup.2.1).1
    have hfront : key ∉ front := fun hmem => hnodup.2.2 key hmem key List.mem_cons_self rfl
    have hother : ∀ keys : List (ℕ × ℕ), key ∉ keys → (key, l) ∉ keys.flatMap (stageLayers globalMetadata) := by
      intro keys hkeys hmem
      obtain ⟨key', hkey', hlayer⟩ := List.mem_flatMap.mp hmem
      obtain rfl : key = key' := ((mem_stageLayers globalMetadata).mp hlayer).1
      exact hkeys hkey'
    rw [globalLayer?, hkeys, stageMap_get? globalMetadata front back hback, Option.bind_some,
      layerMap_get? (stageLocalIds_nodup globalMetadata key), List.mk_mem_zipIdx_iff_le_and_getElem?_sub,
      orderedLayers, hkeys, List.flatMap_append, List.flatMap_cons, ← List.append_assoc,
      getElem?_middle_iff (hother front hfront) (hother back hback), stageLayers, List.getElem?_map,
      Option.map_eq_some_iff]
    simp
  · have hnone : globalLayer? ((stageKeys globalMetadata ppSize).foldl (addStage globalMetadata)
        (Dict.empty, 0)).1 key l = none := by
      obtain ⟨hmem, -⟩ | ⟨-, hget⟩ := foldl_addStage_get? globalMetadata (stageKeys globalMetadata ppSize)
        (Dict.empty, 0) key
      · exact absurd hmem hkey
      · rw [globalLayer?, hget]
        rfl
    refine iff_of_false ?_ ?_
    · rw [hnone]
      exact Option.some_ne_none g ∘ Eq.symm
    · intro hget
      obtain ⟨key', hkey', hlayer⟩ := List.mem_flatMap.mp (List.mem_of_getElem? hget)
      obtain rfl : key = key' := ((mem_stageLayers globalMetadata).mp hlayer).1
      exact hkey hkey'

theorem CommonPipeline.length_orderedLayers :
    (orderedLayers globalMetadata ppSize).length = (reportedLayers globalMetadata).dedup.length := by
  apply List.Perm.length_eq
  rw [List.perm_ext_iff_of_nodup _ (List.nodup_dedup _)]
  · intro layer
    rw [h.mem_orderedLayers, List.mem_dedup]
  · apply (orderedLayers_sorted globalMetadata ppSize).imp
    rintro x y hlt rfl
    exact lt_irrefl _ hlt

end Numbers

theorem sortedSet_perm {xs ys : List ℕ} (hperm : xs.Perm ys) :
    xs.dedup.insertionSort (· ≤ ·) = ys.dedup.insertionSort (· ≤ ·) := by
  apply List.Perm.eq_of_pairwise' (List.pairwise_insertionSort _ _) (List.pairwise_insertionSort _ _)
  exact (List.perm_insertionSort _ _).trans (hperm.dedup.trans (List.perm_insertionSort _ _).symm)

section Permuted

variable {globalMetadata permuted : List StageRankMeta} (h : globalMetadata.Perm permuted)

include h

theorem reportedLayers_perm : (reportedLayers globalMetadata).Perm (reportedLayers permuted) :=
  h.flatMap_right _

theorem stageLocalIds_perm (stageKey : ℕ × ℕ) :
    stageLocalIds globalMetadata stageKey = stageLocalIds permuted stageKey :=
  sortedSet_perm (((reportedLayers_perm h).filter _).map _)

theorem stageKeys_perm (ppSize : ℕ) : stageKeys globalMetadata ppSize = stageKeys permuted ppSize := by
  have hvp : vpStages globalMetadata = vpStages permuted := sortedSet_perm ((reportedLayers_perm h).map _)
  simp only [stageKeys, hvp, stageLocalIds_perm h]

theorem buildPpStageLayerIdMap_perm {ppSize : ℕ} (hpipeline : CommonPipeline ppSize globalMetadata) :
    buildPpStageLayerIdMap permuted = buildPpStageLayerIdMap globalMetadata := by
  have hpipeline' : CommonPipeline ppSize permuted := fun rankMeta hrank => hpipeline rankMeta (h.mem_iff.mpr hrank)
  have hadd : addStage globalMetadata = addStage permuted := by
    funext state stageKey
    rw [addStage, addStage, stageLocalIds_perm h]
  rw [hpipeline.build_eq, hpipeline'.build_eq, stageKeys_perm h, hadd]

end Permuted

end Awex
