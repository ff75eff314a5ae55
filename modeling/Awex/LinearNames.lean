import Awex.LinearMla
import Awex.NamesAgree

namespace Awex

open Text McoreConverter

namespace LinearMlaConverter

variable {τ : Type} (c : LinearMlaConverter τ)

theorem convertProcessedParam_layerName (remaining : Name) (layer : ℕ) (parameter : τ)
    (cache : AProjCache τ) :
    c.convertProcessedParam (layerName layer remaining) parameter cache =
      if Occurs "output_layer.weight" ('.' :: remaining) then
        (c.postProcessLinearMlaParams (c.convertLmHeadParam parameter)).map (·, cache)
      else c.convertLayerParam (layerName layer remaining) (digits layer) remaining parameter cache := by
  have hembedding : layerName layer remaining ≠ ("embedding.word_embeddings.weight" : Name) :=
    layerName_ne layer remaining (by decide)
  have hnorm : layerName layer remaining ≠ ("decoder.final_layernorm.weight" : Name) :=
    layerName_ne layer remaining (by decide)
  have houtput := occurs_layerName "output_layer.weight" (by decide) (by decide) layer remaining
  have hstart : ("decoder.layers." : Name) <+: layerName layer remaining := List.prefix_append _ _
  have hdrop : (layerName layer remaining).drop ("decoder.layers." : Name).length = digits layer ++ '.' :: remaining := by
    unfold layerName
    exact List.drop_left
  unfold convertProcessedParam
  rw [if_neg hembedding, if_neg hnorm, if_pos hstart, hdrop]
  simp only [houtput, splitFirst_digits]

def mlaResult (name : Name) (parameter : τ) (layer : AProjs τ) : Except ConvertError (List (Name × τ) × AProjs τ) :=
  (c.convertMlaAttentionParam name parameter [] (fun _ => layer)).map (fun (converted, cache) =>
    (converted, cache []))

theorem fuseAProjs_eq (layer : AProjs τ) (layerNumber : Name) (cache other : AProjCache τ) :
    c.fuseAProjs layer cache layerNumber =
      ((c.fuseAProjs layer other []).map (fun (converted, cache) => (converted, cache []))).map
        (fun (converted, layer) => (converted, Function.update cache layerNumber layer)) := by
  unfold fuseAProjs
  split
  · generalize (if c.rankInfo.attnTpSize = 1 then _ else _ : Except ConvertError τ) = fused
    cases fused with
    | error e => rfl
    | ok fusedTensor => simp
  · simp

theorem convertMlaAttentionParam_eq (name : Name) (parameter : τ) (layerNumber : Name) (cache : AProjCache τ) :
    c.convertMlaAttentionParam name parameter layerNumber cache =
      (c.mlaResult name parameter (cache layerNumber)).map (fun (converted, layer) =>
        (converted, Function.update cache layerNumber layer)) := by
  unfold mlaResult convertMlaAttentionParam
  split
  · split_ifs
    · simp
    · unfold tryFuseQkvAProj
      split_ifs
      · exact c.fuseAProjs_eq _ layerNumber cache _
      · exact c.fuseAProjs_eq _ layerNumber cache _
      · simp
    · simp
    · simp
  · cases c.toMcoreConverter.convertAttentionParam name parameter <;> simp

def attentionResult (linear : Prop) [Decidable linear] (name : Name) (parameter : τ) (layer : AProjs τ) :
    Except ConvertError (List (Name × τ) × AProjs τ) :=
  if linear ∧ ¬ isMlaParam name then (c.convertLightningAttentionParam name parameter).map (·, layer)
  else c.mlaResult name parameter layer

theorem convertAttentionParam_eq (name : Name) (parameter : τ) (layer : ℕ) (cache : AProjCache τ) :
    c.convertAttentionParam name parameter (digits layer) cache =
      (c.attentionResult (c.isLinearLayer layer) name parameter (cache (digits layer))).map
        (fun (converted, aProjs) => (converted, Function.update cache (digits layer) aProjs)) := by
  have hparse : parseInt (digits layer) = .ok layer := by
    rw [parseInt, numeral?_digits]
  unfold convertAttentionParam attentionResult
  rw [hparse, Except.ok_bind]
  by_cases hmla : isMlaParam name
  · rw [if_pos hmla, if_neg (fun h => h.2 hmla), convertMlaAttentionParam_eq]
  · by_cases hlinear : c.isLinearLayer layer
    · rw [if_neg hmla, if_pos hlinear, if_pos ⟨hlinear, hmla⟩]
      cases c.convertLightningAttentionParam name parameter <;> simp
    · rw [if_neg hmla, if_neg hlinear, if_neg (fun h => hlinear h.1), convertMlaAttentionParam_eq]

theorem scaleUe8m0_modelLayer (layer : ℕ) (name : Name) :
    scaleUe8m0 (modelLayer (digits layer) name) = scaleUe8m0 ('.' :: name) := by
  have hplain : ∀ key ∈ fp8WeightKeys, NoDigits key ∧ ¬ Occurs key "model.layers." := by decide
  have hkeys : (∃ key ∈ fp8WeightKeys, Occurs key (modelLayer (digits layer) name)) ↔
      ∃ key ∈ fp8WeightKeys, Occurs key ('.' :: name) := by
    refine exists_congr fun key => and_congr_right fun hkey => ?_
    obtain ⟨hdigits, hstart⟩ := hplain key hkey
    exact occurs_modelLayer _ hdigits hstart layer name
  have hexperts := occurs_modelLayer ".experts." (by decide) (by decide) layer name
  have hshared := occurs_modelLayer "shared_experts" (by decide) (by decide) layer name
  unfold scaleUe8m0
  simp only [hexperts, hshared, hkeys]

theorem layerBlind : LayerBlind c.postProcessLinearMlaParams := by
  unfold postProcessLinearMlaParams
  split_ifs
  · exact c.layerBlind_quantizeParams (by decide) scaleUe8m0_modelLayer
  · exact .ok

theorem convertLayerParam_other {remaining : Name} (parameter : τ) (h : ¬ Occurs "self_attention" remaining) :
    ∃ relative, ∀ layer cache,
      (c.convertLayerParam (layerName layer remaining) (digits layer) remaining parameter cache).toOption =
        (Option.map (inLayer (digits layer)) relative).map (·, cache) := by
  have hpost : ∀ converted, ∃ relative, ∀ layer, ∀ cache : AProjCache τ,
      ((c.postProcessLinearMlaParams (inLayer (digits layer) converted)).map (·, cache)).toOption =
        (Option.map (inLayer (digits layer)) relative).map (·, cache) := by
    intro converted
    obtain ⟨relative, hrelative⟩ := c.layerBlind.layers converted
    refine ⟨relative, fun layer cache => ?_⟩
    rw [Except.toOption_map, hrelative]
  have hfragments : ∀ frag ∈ mlpFragments, NoDigits frag ∧ ¬ Occurs frag "decoder.layers." := by decide
  have hmlp : ∀ layer, (c.convertMlp (layerName layer remaining) remaining parameter).toOption =
      (c.convertMlp ('.' :: remaining) remaining parameter).toOption := by
    intro layer
    apply c.convertMlp_congr
    intro frag hfrag
    obtain ⟨hdigits, hstart⟩ := hfragments frag hfrag
    exact occurs_layerName _ hdigits hstart layer remaining
  unfold convertLayerParam
  simp only [if_neg h]
  split_ifs
  · exact hpost _
  · cases hconverted : (c.convertMlp ('.' :: remaining) remaining parameter).toOption with
    | none =>
      refine ⟨none, fun layer cache => ?_⟩
      rw [Except.toOption_bind, hmlp, hconverted]
      rfl
    | some converted =>
      obtain ⟨relative, hrelative⟩ := hpost converted
      refine ⟨relative, fun layer cache => ?_⟩
      rw [Except.toOption_bind, hmlp, hconverted]
      exact hrelative layer cache
  · exact ⟨none, fun _ _ => rfl⟩

end LinearMlaConverter

end Awex
