import Awex.AttentionPaths

namespace Awex

open Text McoreConverter

def attentionTargets : List Name :=
  ["self_attn.qkv_proj.weight", "self_attn.qkv_proj.bias", "input_layernorm.weight", "self_attn.o_proj.weight",
    "self_attn.o_proj.bias", "self_attn.q_norm.weight", "self_attn.k_norm.weight", "attention.g_norm.weight",
    "attention.g_proj.weight", "attention.dense.weight", "attention.query_layernorm.weight",
    "attention.key_layernorm.weight", "attention.query_key_value.weight"]

theorem attentionTargets_unscaled : ∀ target ∈ attentionTargets,
    LinearMlaConverter.scaleUe8m0 ('.' :: normalizeAttnName target) = none := by
  decide

section Targets

variable {τ : Type}

def Targets (converted : Except ConvertError (List (Name × τ))) : Prop :=
  ∀ params, converted = .ok params → ∀ param ∈ params, param.1 ∈ attentionTargets

theorem Targets.single {target : Name} (h : target ∈ attentionTargets) (parameter : τ) :
    Targets (.ok [(target, parameter)]) := by
  intro params hparams param hparam
  obtain rfl := Except.ok.inj hparams
  obtain rfl := List.mem_singleton.mp hparam
  exact h

theorem Targets.bind {target : Name} (h : target ∈ attentionTargets) (converted : Except ConvertError τ) :
    Targets (converted >>= fun parameter => .ok [(target, parameter)]) := by
  intro params hparams
  obtain ⟨parameter, -, hok⟩ := Except.bind_eq_ok.mp hparams
  exact Targets.single h parameter params hok

theorem Targets.error (e : ConvertError) : Targets (.error e : Except ConvertError (List (Name × τ))) := by
  intro params hparams
  cases hparams

theorem targets_attention (c : McoreConverter τ) (remaining : Name) (parameter : τ) :
    Targets (c.convertAttentionParam remaining parameter) := by
  unfold convertAttentionParam fuseQkv
  simp only [if_true]
  split_ifs
  · exact .bind (by decide) _
  · exact .bind (by decide) _
  · exact .single (by decide) _
  · exact .single (by decide) _
  · exact .single (by decide) _
  · exact .single (by decide) _
  · exact .single (by decide) _
  · exact .error _

theorem targets_lightning (c : LinearMlaConverter τ) (remaining : Name) (parameter : τ) :
    Targets (c.convertLightningAttentionParam remaining parameter) := by
  rw [convertLightningAttentionParam_eq]
  split_ifs
  · intro params hparams param hparam
    obtain rfl := Except.ok.inj hparams
    exact absurd hparam List.not_mem_nil
  · exact .single (by decide) _
  · exact .single (by decide) _
  · exact .single (by decide) _
  · exact .single (by decide) _
  · exact .single (by decide) _
  · exact .single (by decide) _
  · exact .single (by decide) _
  · exact .bind (by decide) _
  · exact targets_attention _ _ _

theorem targets_plainMla (c : LinearMlaConverter τ) (remaining : Name) (parameter : τ) :
    Targets (plainMla c remaining parameter) := by
  unfold plainMla
  split_ifs
  · exact .single (by decide) _
  · exact .single (by decide) _
  · exact targets_attention _ _ _

end Targets

namespace LinearMlaConverter

variable {τ : Type} (c : LinearMlaConverter τ)

theorem quantizeParams_unscaled {scale : Name → Option Bool} {converted : List (Name × τ)}
    (h : ∀ param ∈ converted, scale param.1 = none) :
    c.quantizeParams scale converted = .ok converted := by
  have hmapM : converted.mapM (c.quantizeParam scale) = .ok (converted.map (fun param => [param])) := by
    apply Except.mapM_of_forall_ok
    intro param hparam
    rw [quantizeParam, h param hparam]
  rw [quantizeParams, hmapM, Except.map_ok, ← List.flatMap_def, List.flatMap_singleton']

theorem postProcess_unscaled {params : List (Name × τ)}
    (h : ∀ param ∈ params, scaleUe8m0 ('.' :: normalizeAttnName param.1) = none) (layer : ℕ) :
    c.postProcessLinearMlaParams (inLayer (digits layer) (normalizeAttnNames params)) =
      .ok (inLayer (digits layer) (normalizeAttnNames params)) := by
  unfold postProcessLinearMlaParams
  split_ifs
  · apply c.quantizeParams_unscaled
    intro converted hconverted
    obtain ⟨normalized, hnormalized, rfl⟩ := List.mem_map.mp hconverted
    obtain ⟨param, hparam, rfl⟩ := List.mem_map.mp hnormalized
    exact (scaleUe8m0_modelLayer layer _).trans (h param hparam)
  · rfl

theorem postProcess_attention {converted : Except ConvertError (List (Name × τ))} (h : Targets converted)
    (layer : ℕ) :
    (converted >>= fun params => c.postProcessLinearMlaParams (inLayer (digits layer) (normalizeAttnNames params))) =
      converted.map (fun params => inLayer (digits layer) (normalizeAttnNames params)) := by
  cases converted with
  | error e => rfl
  | ok params => exact c.postProcess_unscaled (fun param hparam => attentionTargets_unscaled _ (h params rfl param hparam)) layer

theorem convertLayerParam_attention {remaining : Name} (h : Occurs "self_attention" remaining) (parameter : τ)
    (layer : ℕ) (cache : AProjCache τ) :
    c.convertLayerParam (layerName layer remaining) (digits layer) remaining parameter cache =
      c.attentionResult (c.isLinearLayer layer) remaining parameter (cache (digits layer)) >>= fun (params, aProjs) =>
        (c.postProcessLinearMlaParams (inLayer (digits layer) (normalizeAttnNames params))).map
          (·, Function.update cache (digits layer) aProjs) := by
  unfold convertLayerParam
  rw [if_pos h, convertAttentionParam_eq]
  cases c.attentionResult (c.isLinearLayer layer) remaining parameter (cache (digits layer)) <;> rfl

def layerParams (remaining : Name) (parameter : τ) (cache : AProjCache τ) (layer : ℕ) :
    Except ConvertError (List (Name × τ)) :=
  (c.convertProcessedParam (layerName layer remaining) parameter cache).map Prod.fst

/-- The two phases treat the parameter alike. -/
def TreatedAlike (remaining : Name) (layer globalLayer : ℕ) : Prop :=
  Occurs "output_layer.weight" ('.' :: remaining) ∨ ¬ Occurs "self_attention" remaining ∨ isMlaParam remaining ∨
    OnBothPaths remaining ∨ (c.isLinearLayer layer ↔ c.isLinearLayer globalLayer)

def pathParams (remaining : Name) (parameter : τ) (layer : ℕ) : Except ConvertError (List (Name × τ)) :=
  if c.isLinearLayer layer then c.convertLightningAttentionParam remaining parameter
  else plainMla c remaining parameter

theorem attentionResult_path {remaining : Name} (h : ¬ isMlaParam remaining) (parameter : τ) (layer : ℕ)
    (aProjs : AProjs τ) :
    c.attentionResult (c.isLinearLayer layer) remaining parameter aProjs =
      (c.pathParams remaining parameter layer).map (·, aProjs) := by
  unfold attentionResult pathParams
  by_cases hlinear : c.isLinearLayer layer
  · rw [if_pos ⟨hlinear, h⟩, if_pos hlinear]
  · rw [if_neg (fun hl => hlinear hl.1), if_neg hlinear, mlaResult_plain c _ _ h]

theorem layerParams_path {remaining : Name} (houtput : ¬ Occurs "output_layer.weight" ('.' :: remaining))
    (hattention : Occurs "self_attention" remaining) (hmla : ¬ isMlaParam remaining) (parameter : τ)
    (cache : AProjCache τ) (layer : ℕ) :
    (c.layerParams remaining parameter cache layer).toOption =
      Option.map (inLayer (digits layer)) ((c.pathParams remaining parameter layer).toOption.map normalizeAttnNames) := by
  have htargets : Targets (c.pathParams remaining parameter layer) := by
    unfold pathParams
    split_ifs
    · exact targets_lightning c remaining parameter
    · exact targets_plainMla c remaining parameter
  have hpost := c.postProcess_attention htargets layer
  rw [layerParams, convertProcessedParam_layerName, if_neg houtput, c.convertLayerParam_attention hattention,
    c.attentionResult_path hmla]
  cases hpath : c.pathParams remaining parameter layer with
  | error e => rfl
  | ok params =>
    rw [hpath] at hpost
    have hok : c.postProcessLinearMlaParams (inLayer (digits layer) (normalizeAttnNames params)) =
        .ok (inLayer (digits layer) (normalizeAttnNames params)) := hpost
    simp only [Except.map_ok, Except.ok_bind, hok, Except.toOption_ok, Option.map_some]

theorem layerParams_output {remaining : Name} (houtput : Occurs "output_layer.weight" ('.' :: remaining))
    (parameter : τ) (cache : AProjCache τ) (layer : ℕ) :
    c.layerParams remaining parameter cache layer = .ok [("lm_head.weight", c.ops.toFloat32 parameter)] := by
  have hpost := c.layerBlind.single "lm_head.weight" (by decide) (c.ops.toFloat32 parameter)
  rw [layerParams, convertProcessedParam_layerName, if_pos houtput, convertLmHeadParam, hpost]
  rfl

theorem attentionResult_congr {remaining : Name} {linear linear' : Prop} [Decidable linear] [Decidable linear']
    (h : isMlaParam remaining ∨ (linear ↔ linear')) (parameter : τ) (aProjs : AProjs τ) :
    c.attentionResult linear remaining parameter aProjs = c.attentionResult linear' remaining parameter aProjs := by
  unfold attentionResult
  obtain hmla | hlinear := h
  · rw [if_neg (fun h => h.2 hmla), if_neg (fun h => h.2 hmla)]
  · simp only [hlinear]

variable {ppMap : StageLayerMap} {stageKey : ℕ × ℕ} {layerMap : Dict ℕ ℕ} {layer globalLayer : ℕ}
  (hstage : ppMap.get? stageKey = some layerMap) (hlayer : layerMap.get? layer = some globalLayer)
  {remaining : Name} {parameter : τ} {cache writerCache : AProjCache τ}
include hstage hlayer

theorem namesAgree_sameResult (houtput : ¬ Occurs "output_layer.weight" ('.' :: remaining))
    (hattention : Occurs "self_attention" remaining)
    (hsame : c.attentionResult (c.isLinearLayer layer) remaining parameter (cache (digits layer)) =
      c.attentionResult (c.isLinearLayer globalLayer) remaining parameter (writerCache (digits globalLayer))) :
    NamesAgree ppMap stageKey (c.layerParams remaining parameter cache layer)
      (c.layerParams remaining parameter writerCache globalLayer) := by
  choose relative hrelative using c.layerBlind.layers
  have hparams : ∀ layer cache, (c.layerParams remaining parameter cache layer).toOption =
      Option.map (inLayer (digits layer))
        ((c.attentionResult (c.isLinearLayer layer) remaining parameter (cache (digits layer))).toOption.bind
          (fun result => relative (normalizeAttnNames result.1))) := by
    intro layer cache
    rw [layerParams, convertProcessedParam_layerName, if_neg houtput, c.convertLayerParam_attention hattention]
    cases c.attentionResult (c.isLinearLayer layer) remaining parameter (cache (digits layer)) with
    | error e => rfl
    | ok result =>
      rw [Except.ok_bind, Except.toOption_map, Except.toOption_map, hrelative, Option.map_map]
      exact congrFun Option.map_id _
  refine (namesAgree_iff hstage hlayer (hparams layer cache) (hparams globalLayer writerCache)).mpr ?_
  rw [hsame]

theorem namesAgree_paths (houtput : ¬ Occurs "output_layer.weight" ('.' :: remaining))
    (hattention : Occurs "self_attention" remaining) (hmla : ¬ isMlaParam remaining)
    (hdiffer : ¬ (c.isLinearLayer layer ↔ c.isLinearLayer globalLayer)) :
    NamesAgree ppMap stageKey (c.layerParams remaining parameter cache layer)
        (c.layerParams remaining parameter writerCache globalLayer) ↔
      hfNames (c.convertLightningAttentionParam remaining parameter) = hfNames (plainMla c remaining parameter) := by
  have hnames : ∀ converted : Except ConvertError (List (Name × τ)),
      (converted.toOption.map normalizeAttnNames).map (fun params => params.map Prod.fst) = hfNames converted := by
    intro converted
    rw [hfNames, Option.map_map]
    congr 1
    funext params
    exact List.map_map ..
  rw [namesAgree_iff hstage hlayer (c.layerParams_path houtput hattention hmla parameter cache layer)
    (c.layerParams_path houtput hattention hmla parameter writerCache globalLayer), hnames, hnames]
  unfold pathParams
  by_cases hlinear : c.isLinearLayer layer
  · have hglobal : ¬ c.isLinearLayer globalLayer := fun h => hdiffer (iff_of_true hlinear h)
    rw [if_pos hlinear, if_neg hglobal]
  · have hglobal : c.isLinearLayer globalLayer := by
      by_contra h
      exact hdiffer (iff_of_false hlinear h)
    rw [if_neg hlinear, if_pos hglobal, eq_comm]

theorem namesAgree_layer (hone : OneParam remaining)
    (hqkv : Occurs "self_attention.linear_qkv.weight" remaining →
      ∃ converted, c.ops.convertQkvWeightAlongTpAttention parameter = .ok converted)
    (hsync : cache (digits layer) = writerCache (digits globalLayer)) :
    NamesAgree ppMap stageKey (c.layerParams remaining parameter cache layer)
        (c.layerParams remaining parameter writerCache globalLayer) ↔
      c.TreatedAlike remaining layer globalLayer := by
  unfold TreatedAlike
  by_cases houtput : Occurs "output_layer.weight" ('.' :: remaining)
  · refine iff_of_true ?_ (.inl houtput)
    rw [c.layerParams_output houtput, c.layerParams_output houtput]
    exact namesAgree_single (by decide) _
  · by_cases hattention : Occurs "self_attention" remaining
    · by_cases hsame : isMlaParam remaining ∨ (c.isLinearLayer layer ↔ c.isLinearLayer globalLayer)
      · refine iff_of_true (c.namesAgree_sameResult hstage hlayer houtput hattention ?_) ?_
        · rw [hsync]
          exact c.attentionResult_congr hsame parameter _
        · obtain hmla | hkind := hsame
          · exact .inr (.inr (.inl hmla))
          · exact .inr (.inr (.inr (.inr hkind)))
      · obtain ⟨hmla, hkind⟩ := not_or.mp hsame
        rw [c.namesAgree_paths hstage hlayer houtput hattention hmla hkind, paths_agree_iff c hone hqkv]
        simp [houtput, hattention, hmla, hkind]
    · refine iff_of_true ?_ (.inr (.inl hattention))
      obtain ⟨relative, hrelative⟩ := c.convertLayerParam_other parameter hattention
      have hparams : ∀ layer cache, (c.layerParams remaining parameter cache layer).toOption =
          Option.map (inLayer (digits layer)) relative := by
        intro layer cache
        rw [layerParams, convertProcessedParam_layerName, if_neg houtput, Except.toOption_map, hrelative,
          Option.map_map]
        exact congrFun Option.map_id _
      exact (namesAgree_iff hstage hlayer (hparams layer cache) (hparams globalLayer writerCache)).mpr rfl

end LinearMlaConverter

end Awex
