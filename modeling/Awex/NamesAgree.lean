import Awex.LayerNames
import Mathlib.Data.List.Find

namespace Awex

open Text McoreConverter

inductive MegatronName where
  | wordEmbeddings
  | finalLayernorm
  | outputLayer
  | layer (localLayerId : ℕ) (remaining : Name)

def MegatronName.text : MegatronName → Name
  | .wordEmbeddings => "embedding.word_embeddings.weight"
  | .finalLayernorm => "decoder.final_layernorm.weight"
  | .outputLayer => "output_layer.weight"
  | .layer localLayerId remaining => layerName localLayerId remaining

def MegatronName.Reported (globalMetadata : List StageRankMeta) (stageKey : ℕ × ℕ) : MegatronName → Prop
  | .layer localLayerId remaining =>
    InLayer remaining ∧ (stageKey, localLayerId) ∈ reportedLayers globalMetadata
  | _ => True

section Agree

variable {τ : Type}

/-- The names that the metadata ends up with are those of the writer, and either both phases raise or none. -/
def NamesAgree (ppMap : StageLayerMap) (stageKey : ℕ × ℕ)
    (metadata writer : Except ConvertError (List (Name × τ))) : Prop :=
  (metadata >>= fun params => params.mapM (fun (name, _) => canonicalizePpLayerName ppMap stageKey name)).toOption =
    (writer.map (fun params => params.map Prod.fst)).toOption

theorem inLayer_fst (layerNumber : Name) (converted : List (Name × τ)) :
    (inLayer layerNumber converted).map Prod.fst = (converted.map Prod.fst).map (modelLayer layerNumber) := by
  rw [inLayer, List.map_map, List.map_map]
  rfl

theorem modelLayer_injective (layerNumber : Name) : Function.Injective (modelLayer layerNumber) := by
  intro name name' h
  unfold modelLayer at h
  exact (List.cons.inj (List.append_cancel_left (List.append_cancel_left h))).2

theorem namesAgree_iff {ppMap : StageLayerMap} {stageKey : ℕ × ℕ} {layerMap : Dict ℕ ℕ} {layer globalLayer : ℕ}
    (hstage : ppMap.get? stageKey = some layerMap) (hlayer : layerMap.get? layer = some globalLayer)
    {metadata writer : Except ConvertError (List (Name × τ))} {relative relative' : Option (List (Name × τ))}
    (hmetadata : metadata.toOption = relative.map (inLayer (digits layer)))
    (hwriter : writer.toOption = relative'.map (inLayer (digits globalLayer))) :
    NamesAgree ppMap stageKey metadata writer ↔
      relative.map (fun params => params.map Prod.fst) = relative'.map (fun params => params.map Prod.fst) := by
  have hnames : (metadata >>= fun params =>
      params.mapM (fun (name, _) => canonicalizePpLayerName ppMap stageKey name)).toOption =
      (relative.map (fun params => params.map Prod.fst)).map (List.map (modelLayer (digits globalLayer))) := by
    cases metadata with
    | error e =>
      obtain rfl : relative = none := by simpa [eq_comm] using hmetadata
      rfl
    | ok params =>
      obtain ⟨converted, rfl, rfl⟩ : ∃ converted, relative = some converted ∧
          inLayer (digits layer) converted = params := by
        simpa [eq_comm] using hmetadata
      rw [Except.ok_bind, inLayer, List.mapM_map, Option.map_some, Option.map_some, List.map_map]
      refine congrArg Except.toOption (Except.mapM_of_forall_ok (fun param _ => ?_))
      exact canonicalizePpLayerName_modelLayer hstage hlayer param.1
  have hnames' : (writer.map (fun params => params.map Prod.fst)).toOption =
      (relative'.map (fun params => params.map Prod.fst)).map (List.map (modelLayer (digits globalLayer))) := by
    rw [Except.toOption_map, hwriter, Option.map_map, Option.map_map]
    congr 1
    funext params
    exact inLayer_fst (digits globalLayer) params
  rw [NamesAgree, hnames, hnames']
  exact (Option.map_injective (List.map_injective_iff.mpr (modelLayer_injective _))).eq_iff

theorem namesAgree_global {ppMap : StageLayerMap} {stageKey : ℕ × ℕ} {metadata : Except ConvertError (List (Name × τ))}
    (h : ∀ params, metadata = .ok params → ∀ param ∈ params, ¬ Occurs ".layers." param.1) :
    NamesAgree ppMap stageKey metadata metadata := by
  rw [NamesAgree]
  cases metadata with
  | error e => rfl
  | ok params =>
    refine congrArg Except.toOption (Except.mapM_of_forall_ok (fun param hparam => ?_))
    exact canonicalizePpLayerName_global ppMap stageKey (h params rfl param hparam)

end Agree

namespace McoreConverter

variable {τ : Type} (c : McoreConverter τ)

theorem convertProcessedParam_layerName {remaining : Name} (h : InLayer remaining) (layer : ℕ) (parameter : τ) :
    c.convertProcessedParam (layerName layer remaining) parameter =
      if Occurs "output_layer.weight" ('.' :: remaining) then .ok (c.convertLmHeadParam parameter)
      else c.convertLayerParam (digits layer ++ '.' :: remaining) (digits layer) remaining parameter := by
  have hdecoder : ¬ Occurs "decoder.layers." (digits layer ++ '.' :: remaining) := by
    rw [occurs_after (by decide)]
    intro hoccurs
    exact h (List.IsInfix.trans (by decide) hoccurs)
  have hreplace : replaceAll "decoder.layers." "" (layerName layer remaining) = digits layer ++ '.' :: remaining := by
    unfold layerName
    exact replaceAll_prefix (by decide) hdecoder
  have hembedding : layerName layer remaining ≠ ("embedding.word_embeddings.weight" : Name) :=
    layerName_ne layer remaining (by decide)
  have hnorm : layerName layer remaining ≠ ("decoder.final_layernorm.weight" : Name) :=
    layerName_ne layer remaining (by decide)
  have houtput := occurs_layerName "output_layer.weight" (by decide) (by decide) layer remaining
  unfold convertProcessedParam
  rw [if_neg hembedding, if_neg hnorm]
  simp only [houtput, hreplace, splitFirst_digits]

/-- What the `mlp` parameters are told apart by. -/
def mlpFragments : List String := ["mlp.gate.weight", "mlp.router.weight", "expert_bias", "router", "gate."]

theorem convertMlp_congr {name remaining : Name}
    (hoccurs : ∀ frag ∈ mlpFragments, (Occurs frag name ↔ Occurs frag ('.' :: remaining))) (parameter : τ) :
    (c.convertMlp name remaining parameter).toOption = (c.convertMlp ('.' :: remaining) remaining parameter).toOption := by
  unfold convertMlp convertGate convertExpertBiasParam
  simp only [hoccurs "mlp.gate.weight" (by decide), hoccurs "mlp.router.weight" (by decide),
    hoccurs "expert_bias" (by decide), hoccurs "router" (by decide), hoccurs "gate." (by decide)]
  split_ifs <;> rfl

/-- A converted parameter does not depend on the number of its layer. -/
theorem convertLayerParam_relative (remaining : Name) (parameter : τ) : ∃ relative, ∀ layer,
    (c.convertLayerParam (digits layer ++ '.' :: remaining) (digits layer) remaining parameter).toOption =
      Option.map (inLayer (digits layer)) relative := by
  unfold convertLayerParam
  split_ifs
  · refine ⟨((c.convertAttentionParam remaining parameter).map normalizeAttnNames).toOption, fun layer => ?_⟩
    rw [Except.toOption_map, Except.toOption_map, Option.map_map]
    rfl
  · refine ⟨(c.convertMlp ('.' :: remaining) remaining parameter).toOption, fun layer => ?_⟩
    have hdigits : ∀ frag ∈ mlpFragments, NoDigits frag := by decide
    rw [Except.toOption_map, c.convertMlp_congr (fun frag hfrag => occurs_after (hdigits frag hfrag) _ layer)]
  · exact ⟨none, fun _ => rfl⟩

theorem occurs_modelLayer (frag : String) (h : NoDigits frag) (hstart : ¬ Occurs frag "model.layers.")
    (layer : ℕ) (name : Name) : Occurs frag (modelLayer (digits layer) name) ↔ Occurs frag ('.' :: name) := by
  unfold modelLayer
  rw [occurs_around h, or_iff_right hstart]

theorem modelLayer_append (layerNumber name suffix : Name) :
    modelLayer layerNumber name ++ suffix = modelLayer layerNumber (name ++ suffix) := by
  unfold modelLayer
  rw [List.append_assoc, List.append_assoc]
  rfl

theorem quantizeParams_inLayer {scale : Name → Option Bool}
    (hscale : ∀ layer name, scale (modelLayer (digits layer) name) = scale ('.' :: name))
    (converted : List (Name × τ)) : ∃ relative, ∀ layer,
      (c.quantizeParams scale (inLayer (digits layer) converted)).toOption =
        Option.map (inLayer (digits layer)) relative := by
  refine ⟨((converted.mapM (c.quantizeParam (fun name => scale ('.' :: name)))).map List.flatten).toOption,
    fun layer => ?_⟩
  have hmapM := Except.mapM_eq_mapM_map (f := c.quantizeParam scale ∘ fun param =>
    (modelLayer (digits layer) param.1, param.2)) (g := c.quantizeParam (fun name => scale ('.' :: name)))
    (k := inLayer (digits layer)) converted (fun param => ?_)
  · rw [quantizeParams, inLayer, List.mapM_map, hmapM]
    rw [Except.toOption_map, Except.toOption_map, Except.toOption_map, Option.map_map, Option.map_map]
    congr 1
    funext params
    exact (List.map_flatten ..).symm
  · simp only [Function.comp_apply, quantizeParam, hscale]
    cases scale ('.' :: param.1) with
    | none => rfl
    | some ue8m0 =>
      dsimp only
      cases c.ops.perBlockCastToFp8 param.2 ue8m0 with
      | error e => rfl
      | ok cast =>
        simp only [Except.ok_bind, Except.map_ok, inLayer, List.map_cons, List.map_nil, modelLayer_append]

end McoreConverter

def globalNames : List Name :=
  ["embedding.word_embeddings.weight", "decoder.final_layernorm.weight", "output_layer.weight"]

def globalHfNames : List Name := ["model.embed_tokens.weight", "model.norm.weight", "lm_head.weight"]

section Phases

variable {rankInfo : RankInfo} {vpStage : ℕ} {first : StageRankMeta} {others : List StageRankMeta}

theorem processMcorePpName_global (ppMap : StageLayerMap) {text : Name} (h : text ∈ globalNames) :
    processMcorePpName rankInfo vpStage ppMap text = .ok text := by
  have hlayers : ∀ text ∈ globalNames, ¬ Occurs "layers." text := by decide
  rw [processMcorePpName, if_neg (hlayers text h)]

theorem processed_names (hrank : rankInfo.ppRank < first.ppSize) {param : MegatronName}
    (hparam : param.Reported (first :: others) (rankInfo.ppRank, vpStage)) :
    param.text ∈ globalNames ∨
      ∃ layer remaining layerMap globalLayer, param = .layer layer remaining ∧ InLayer remaining ∧
        StageMapped (buildPpStageLayerIdMap (first :: others)) (rankInfo.ppRank, vpStage) layerMap ∧
        layerMap.get? layer = some globalLayer ∧
        processMcorePpName rankInfo vpStage Dict.empty param.text = .ok (layerName layer remaining) ∧
        processMcorePpName rankInfo vpStage (buildPpStageLayerIdMap (first :: others)) param.text =
          .ok (layerName globalLayer remaining) := by
  cases param with
  | wordEmbeddings => exact .inl List.mem_cons_self
  | finalLayernorm => exact .inl (List.mem_cons_of_mem _ List.mem_cons_self)
  | outputLayer => exact .inl (List.mem_cons_of_mem _ (List.mem_cons_of_mem _ List.mem_cons_self))
  | layer layer remaining =>
    obtain ⟨hremaining, hreported⟩ := hparam
    obtain ⟨layerMap, globalLayer, hmapped, hlayer⟩ := buildPpStageLayerIdMap_mapped hrank hreported
    obtain ⟨hlocal, hglobal⟩ := processMcorePpName_layer rankInfo vpStage layer hremaining
    exact .inr ⟨layer, remaining, layerMap, globalLayer, rfl, hremaining, hmapped, hlayer, hlocal,
      hglobal _ layerMap globalLayer hmapped.stage hlayer⟩

end Phases

theorem mem_globalNames {text : Name} : text ∈ globalNames ↔ text = ("embedding.word_embeddings.weight" : Name) ∨
    text = ("decoder.final_layernorm.weight" : Name) ∨ text = ("output_layer.weight" : Name) := by
  unfold globalNames
  rw [List.mem_cons, List.mem_cons, List.mem_singleton]

section Converters

variable {τ : Type} {vpStage : ℕ} {first : StageRankMeta} {others : List StageRankMeta} {param : MegatronName}
  {name text : Name}

theorem globalNames_apart : ("decoder.final_layernorm.weight" : Name) ≠ ("embedding.word_embeddings.weight" : Name) ∧
    ("output_layer.weight" : Name) ≠ ("embedding.word_embeddings.weight" : Name) ∧
    ("output_layer.weight" : Name) ≠ ("decoder.final_layernorm.weight" : Name) := by
  decide

theorem McoreConverter.convertProcessedParam_global (c : McoreConverter τ) (parameter : τ)
    (h : text ∈ globalNames) :
    ∃ hfName ∈ globalHfNames, ∃ converted, c.convertProcessedParam text parameter = .ok [(hfName, converted)] := by
  obtain ⟨hne, hne', hne''⟩ := globalNames_apart
  have hoccurs : Occurs "output_layer.weight" ("output_layer.weight" : Name) := List.infix_refl _
  unfold convertProcessedParam
  obtain rfl | rfl | rfl := mem_globalNames.mp h
  · rw [if_pos rfl]
    exact ⟨_, List.mem_cons_self, _, rfl⟩
  · rw [if_neg hne, if_pos rfl]
    exact ⟨_, List.mem_cons_of_mem _ List.mem_cons_self, _, rfl⟩
  · rw [if_neg hne', if_neg hne'', if_pos hoccurs]
    exact ⟨_, List.mem_cons_of_mem _ (List.mem_cons_of_mem _ List.mem_cons_self), _, rfl⟩

def SameInLayers (convert : ℕ → Except ConvertError (List (Name × τ))) : Prop :=
  (∃ hfName ∈ globalHfNames, ∃ converted, ∀ layer, convert layer = .ok [(hfName, converted)]) ∨
    ∃ relative, ∀ layer, (convert layer).toOption = Option.map (inLayer (digits layer)) relative

theorem globalHfNames_noLayer : ∀ hfName ∈ globalHfNames, ¬ Occurs ".layers." hfName := by
  decide

theorem namesAgree_single {ppMap : StageLayerMap} {stageKey : ℕ × ℕ} {hfName : Name} (h : hfName ∈ globalHfNames)
    (converted : τ) :
    NamesAgree ppMap stageKey (.ok [(hfName, converted)]) (.ok [(hfName, converted)]) := by
  apply namesAgree_global
  intro params hparams p hp
  obtain rfl := Except.ok.inj hparams
  obtain rfl := List.mem_singleton.mp hp
  exact globalHfNames_noLayer hfName h

theorem SameInLayers.namesAgree {convert : ℕ → Except ConvertError (List (Name × τ))} (h : SameInLayers convert)
    {ppMap : StageLayerMap} {stageKey : ℕ × ℕ} {layerMap : Dict ℕ ℕ} {layer globalLayer : ℕ}
    (hstage : ppMap.get? stageKey = some layerMap) (hlayer : layerMap.get? layer = some globalLayer) :
    NamesAgree ppMap stageKey (convert layer) (convert globalLayer) := by
  obtain ⟨hfName, hmem, converted, hconvert⟩ | ⟨relative, hrelative⟩ := h
  · rw [hconvert, hconvert]
    exact namesAgree_single hmem converted
  · exact (namesAgree_iff hstage hlayer (hrelative layer) (hrelative globalLayer)).mpr rfl

theorem McoreConverter.sameInLayers (c : McoreConverter τ) {remaining : Name} (h : InLayer remaining)
    (parameter : τ) : SameInLayers (fun layer => c.convertProcessedParam (layerName layer remaining) parameter) := by
  simp only [SameInLayers, c.convertProcessedParam_layerName h]
  split_ifs
  · exact .inl ⟨_, List.mem_cons_of_mem _ (List.mem_cons_of_mem _ List.mem_cons_self), _, fun _ => rfl⟩
  · exact .inr (c.convertLayerParam_relative remaining parameter)

structure LayerBlind (post : List (Name × τ) → Except ConvertError (List (Name × τ))) : Prop where
  single : ∀ hfName ∈ globalHfNames, ∀ converted, post [(hfName, converted)] = .ok [(hfName, converted)]
  layers : ∀ converted, ∃ relative, ∀ layer,
    (post (inLayer (digits layer) converted)).toOption = Option.map (inLayer (digits layer)) relative

theorem LayerBlind.ok : LayerBlind (Except.ok : List (Name × τ) → Except ConvertError (List (Name × τ))) :=
  ⟨fun _ _ _ => rfl, fun converted => ⟨some converted, fun _ => rfl⟩⟩

theorem McoreConverter.layerBlind_quantizeParams (c : McoreConverter τ) {scale : Name → Option Bool}
    (hglobal : ∀ hfName ∈ globalHfNames, scale hfName = none)
    (hscale : ∀ layer name, scale (modelLayer (digits layer) name) = scale ('.' :: name)) :
    LayerBlind (c.quantizeParams scale) := by
  refine ⟨fun hfName hmem converted => ?_, c.quantizeParams_inLayer hscale⟩
  simp [quantizeParams, quantizeParam, hglobal hfName hmem, pure, Except.pure]

theorem SameInLayers.bind {convert : ℕ → Except ConvertError (List (Name × τ))} (h : SameInLayers convert)
    {post : List (Name × τ) → Except ConvertError (List (Name × τ))} (hpost : LayerBlind post) :
    SameInLayers (fun layer => convert layer >>= post) := by
  obtain ⟨hfName, hmem, converted, hconvert⟩ | ⟨relative, hrelative⟩ := h
  · refine .inl ⟨hfName, hmem, converted, fun layer => ?_⟩
    dsimp only
    rw [hconvert, Except.ok_bind, hpost.single hfName hmem]
  · cases relative with
    | none =>
      refine .inr ⟨none, fun layer => ?_⟩
      rw [Except.toOption_bind, hrelative]
      rfl
    | some converted =>
      obtain ⟨relative', hrelative'⟩ := hpost.layers converted
      refine .inr ⟨relative', fun layer => ?_⟩
      rw [Except.toOption_bind, hrelative, Option.map_some, Option.bind_some, hrelative']

theorem McoreConverter.names_agree (c : McoreConverter τ) (hrank : c.rankInfo.ppRank < first.ppSize)
    (hparam : param.Reported (first :: others) (c.rankInfo.ppRank, vpStage))
    (hname : replaceAll "module." "" name = param.text) (parameter : τ)
    {post : List (Name × τ) → Except ConvertError (List (Name × τ))} (hpost : LayerBlind post) :
    NamesAgree (buildPpStageLayerIdMap (first :: others)) (c.rankInfo.ppRank, vpStage)
      ((c.withLayerMap Dict.empty).convertParam name parameter vpStage >>= post)
      ((c.withLayerMap (buildPpStageLayerIdMap (first :: others))).convertParam name parameter vpStage >>= post) := by
  have hconvert : ∀ ppMap text, processMcorePpName c.rankInfo vpStage ppMap param.text = .ok text →
      (c.withLayerMap ppMap).convertParam name parameter vpStage = c.convertProcessedParam text parameter := by
    intro ppMap text htext
    unfold convertParam
    rw [hname]
    exact (congrArg (· >>= _) htext).trans (Except.ok_bind _ _)
  obtain hglobal | ⟨layer, remaining, layerMap, globalLayer, rfl, hremaining, hmapped, hlayer, hlocal, hmap⟩ :=
    processed_names hrank hparam
  · obtain ⟨hfName, hmem, converted, hconverted⟩ := c.convertProcessedParam_global parameter hglobal
    rw [hconvert _ _ (processMcorePpName_global _ hglobal), hconvert _ _ (processMcorePpName_global _ hglobal),
      hconverted, Except.ok_bind, hpost.single hfName hmem]
    exact namesAgree_single hmem converted
  · rw [hconvert _ _ hlocal, hconvert _ _ hmap]
    exact ((c.sameInLayers hremaining parameter).bind hpost).namesAgree hmapped.stage hlayer

theorem BailingMoeConverter.layerBlind (c : BailingMoeConverter τ) :
    LayerBlind (fun params => if c.quantMethod then c.quantizeParams c.scaleUe8m0 params else .ok params) := by
  have hmem : ∀ key ∈ c.fp8WeightKeys, key ∈ ["up_proj.weight", "down_proj.weight", "gate_proj.weight",
      "attention.dense.weight", "attention.query_key_value.weight"] := by
    intro key hkey
    have := c.fp8WeightKeys_perm.subset hkey
    split_ifs at this with hquant
    · exact this
    · exact absurd this List.not_mem_nil
  split_ifs with hquant
  · apply c.layerBlind_quantizeParams
    · have hnone : ∀ hfName ∈ globalHfNames, ∀ key ∈ ["up_proj.weight", "down_proj.weight", "gate_proj.weight",
          "attention.dense.weight", "attention.query_key_value.weight"], ¬ Occurs key hfName := by
        decide
      intro hfName hhf
      rw [scaleUe8m0, Option.map_eq_none_iff, List.find?_eq_none]
      intro key hkey
      simpa using hnone hfName hhf key (hmem key hkey)
    · have hplain : ∀ key ∈ ["up_proj.weight", "down_proj.weight", "gate_proj.weight",
          "attention.dense.weight", "attention.query_key_value.weight"],
          NoDigits key ∧ ¬ Occurs key "model.layers." := by
        decide
      intro layer name
      have hexperts := occurs_modelLayer ".experts." (by decide) (by decide) layer name
      have hfind : c.fp8WeightKeys.find? (fun key => Occurs key (modelLayer (digits layer) name)) =
          c.fp8WeightKeys.find? (fun key => Occurs key ('.' :: name)) := by
        apply List.find?_congr
        intro key hkey
        obtain ⟨hdigits, hstart⟩ := hplain key (hmem key hkey)
        exact decide_eq_decide.mpr (occurs_modelLayer _ hdigits hstart layer name)
      unfold scaleUe8m0
      rw [hfind]
      simp only [hexperts]
  · exact .ok

end Converters

end Awex
