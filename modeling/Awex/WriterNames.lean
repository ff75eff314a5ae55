import Awex.LinearAgree

namespace Awex

open Text McoreConverter

theorem globalLayer?_mapped {ppMap : StageLayerMap} {stageKey : ℕ × ℕ} {layerMap : Dict ℕ ℕ}
    (h : StageMapped ppMap stageKey layerMap) (localLayerId : ℕ) :
    globalLayer? ppMap stageKey localLayerId = layerMap.get? localLayerId := by
  rw [globalLayer?, h.stage, Option.bind_some]

section Linear

variable {τ : Type}

def MegatronName.Supported (c : LinearMlaConverter τ) (parameter : τ) : MegatronName → Prop
  | .layer _ remaining => OneParam remaining ∧ (Occurs "self_attention.linear_qkv.weight" remaining →
      ∃ converted, c.ops.convertQkvWeightAlongTpAttention parameter = .ok converted)
  | _ => True

def MegatronName.TreatedAlike (c : LinearMlaConverter τ) (ppMap : StageLayerMap) (stageKey : ℕ × ℕ) :
    MegatronName → Prop
  | .layer localLayerId remaining => ∀ globalLayer ∈ globalLayer? ppMap stageKey localLayerId,
      c.TreatedAlike remaining localLayerId globalLayer
  | _ => True

def Synced (ppMap : StageLayerMap) (stageKey : ℕ × ℕ) (cache writerCache : AProjCache τ) : Prop :=
  ∀ localLayerId, ∀ globalLayer ∈ globalLayer? ppMap stageKey localLayerId,
    cache (digits localLayerId) = writerCache (digits globalLayer)

theorem Synced.empty (ppMap : StageLayerMap) (stageKey : ℕ × ℕ) :
    Synced ppMap stageKey (AProjCache.empty : AProjCache τ) AProjCache.empty :=
  fun _ _ _ => rfl

namespace LinearMlaConverter

variable (c : LinearMlaConverter τ)

theorem cache_attention {remaining : Name} (hattention : Occurs "self_attention" remaining) {parameter : τ}
    {layer : ℕ} {cache : AProjCache τ} {result : List (Name × τ) × AProjCache τ}
    (h : c.convertLayerParam (layerName layer remaining) (digits layer) remaining parameter cache = .ok result) :
    ∃ params aProjs, c.attentionResult (c.isLinearLayer layer) remaining parameter (cache (digits layer)) =
        .ok (params, aProjs) ∧ result.2 = Function.update cache (digits layer) aProjs := by
  rw [c.convertLayerParam_attention hattention] at h
  obtain ⟨⟨params, aProjs⟩, hattn, hpost⟩ := Except.bind_eq_ok.mp h
  obtain ⟨converted, -, rfl⟩ := Except.map_eq_ok.mp hpost
  exact ⟨params, aProjs, hattn, rfl⟩

theorem cache_unchanged {remaining : Name} (hattention : ¬ Occurs "self_attention" remaining) {parameter : τ}
    {layer : ℕ} {cache : AProjCache τ} {result : List (Name × τ) × AProjCache τ}
    (h : c.convertLayerParam (layerName layer remaining) (digits layer) remaining parameter cache = .ok result) :
    result.2 = cache := by
  obtain ⟨relative, hrelative⟩ := c.convertLayerParam_other parameter hattention
  have hsome := hrelative layer cache
  rw [h, Except.toOption_ok] at hsome
  obtain ⟨params, -, rfl⟩ := Option.map_eq_some_iff.mp hsome.symm
  rfl

theorem cache_step {remaining : Name} {parameter : τ} {layer layer' : ℕ} {cache writerCache : AProjCache τ}
    (hsync : cache (digits layer) = writerCache (digits layer')) {result result' : List (Name × τ) × AProjCache τ}
    (h : c.convertProcessedParam (layerName layer remaining) parameter cache = .ok result)
    (h' : c.convertProcessedParam (layerName layer' remaining) parameter writerCache = .ok result') :
    ∃ aProjs, result.2 = Function.update cache (digits layer) aProjs ∧
      result'.2 = Function.update writerCache (digits layer') aProjs := by
  have hkeep : result.2 = cache → result'.2 = writerCache →
      ∃ aProjs, result.2 = Function.update cache (digits layer) aProjs ∧
        result'.2 = Function.update writerCache (digits layer') aProjs := by
    intro hcache hwriter
    refine ⟨cache (digits layer), ?_, ?_⟩
    · rw [hcache, Function.update_eq_self]
    · rw [hwriter, hsync, Function.update_eq_self]
  rw [convertProcessedParam_layerName] at h h'
  by_cases houtput : Occurs "output_layer.weight" ('.' :: remaining)
  · rw [if_pos houtput] at h h'
    obtain ⟨params, -, rfl⟩ := Except.map_eq_ok.mp h
    obtain ⟨params', -, rfl⟩ := Except.map_eq_ok.mp h'
    exact hkeep rfl rfl
  · rw [if_neg houtput] at h h'
    by_cases hattention : Occurs "self_attention" remaining
    · obtain ⟨params, aProjs, hresult, hcache⟩ := c.cache_attention hattention h
      obtain ⟨params', aProjs', hresult', hcache'⟩ := c.cache_attention hattention h'
      have hsame : aProjs = aProjs' := by
        by_cases hmla : isMlaParam remaining
        · have hcongr : c.attentionResult (c.isLinearLayer layer) remaining parameter (cache (digits layer)) =
              c.attentionResult (c.isLinearLayer layer') remaining parameter (writerCache (digits layer')) := by
            rw [hsync]
            exact c.attentionResult_congr (.inl hmla) parameter _
          rw [hresult, hresult'] at hcongr
          exact congrArg Prod.snd (Except.ok.inj hcongr)
        · rw [c.attentionResult_path hmla] at hresult hresult'
          obtain ⟨_, -, hkept⟩ := Except.map_eq_ok.mp hresult
          obtain ⟨_, -, hkept'⟩ := Except.map_eq_ok.mp hresult'
          calc aProjs = cache (digits layer) := (congrArg Prod.snd hkept).symm
            _ = writerCache (digits layer') := hsync
            _ = aProjs' := congrArg Prod.snd hkept'
      exact ⟨aProjs, hcache, hsame ▸ hcache'⟩
    · exact hkeep (c.cache_unchanged hattention h) (c.cache_unchanged hattention h')

theorem convertProcessedParam_global {text : Name} (h : text ∈ globalNames) (parameter : τ) :
    ∃ hfName ∈ globalHfNames, ∃ converted, ∀ cache,
      c.convertProcessedParam text parameter cache = .ok ([(hfName, converted)], cache) := by
  obtain ⟨hne, hne', hne''⟩ := globalNames_apart
  have hoccurs : Occurs "output_layer.weight" ("output_layer.weight" : Name) := List.infix_refl _
  unfold convertProcessedParam
  obtain rfl | rfl | rfl := mem_globalNames.mp h
  · refine ⟨"model.embed_tokens.weight", List.mem_cons_self, parameter, fun cache => ?_⟩
    rw [if_pos rfl]
  · refine ⟨"model.norm.weight", List.mem_cons_of_mem _ List.mem_cons_self, parameter, fun cache => ?_⟩
    rw [if_neg hne, if_pos rfl]
  · have hhf : ("lm_head.weight" : Name) ∈ globalHfNames :=
      List.mem_cons_of_mem _ (List.mem_cons_of_mem _ List.mem_cons_self)
    refine ⟨_, hhf, c.ops.toFloat32 parameter, fun cache => ?_⟩
    rw [if_neg hne', if_neg hne'', if_pos hoccurs, convertLmHeadParam, c.layerBlind.single _ hhf, Except.map_ok]

variable {vpStage : ℕ} {first : StageRankMeta} {others : List StageRankMeta} {param : MegatronName} {name : Name}
  {parameter : τ} {cache writerCache : AProjCache τ}

theorem convertParam_eq (hname : replaceAll "module." "" name = param.text) {ppMap : StageLayerMap} {text : Name}
    (htext : processMcorePpName c.rankInfo vpStage ppMap param.text = .ok text) (cache : AProjCache τ) :
    (c.withLayerMap ppMap).convertParam name parameter vpStage cache =
      c.convertProcessedParam text parameter cache := by
  unfold convertParam
  rw [hname]
  exact (congrArg (· >>= _) htext).trans (Except.ok_bind _ _)

structure StageParam (c : LinearMlaConverter τ) (vpStage : ℕ) (globalMetadata : List StageRankMeta) (name : Name)
    (parameter : τ) (param : MegatronName) : Prop where
  text : replaceAll "module." "" name = param.text
  reported : param.Reported globalMetadata (c.rankInfo.ppRank, vpStage)
  supported : param.Supported c parameter

theorem namesAgree_iff (hrank : c.rankInfo.ppRank < first.ppSize)
    (h : c.StageParam vpStage (first :: others) name parameter param)
    (hsync : Synced (buildPpStageLayerIdMap (first :: others)) (c.rankInfo.ppRank, vpStage) cache writerCache) :
    NamesAgree (buildPpStageLayerIdMap (first :: others)) (c.rankInfo.ppRank, vpStage)
        (((c.withLayerMap Dict.empty).convertParam name parameter vpStage cache).map Prod.fst)
        (((c.withLayerMap (buildPpStageLayerIdMap (first :: others))).convertParam name parameter vpStage
          writerCache).map Prod.fst) ↔
      param.TreatedAlike c (buildPpStageLayerIdMap (first :: others)) (c.rankInfo.ppRank, vpStage) := by
  obtain hglobal | ⟨layer, remaining, layerMap, globalLayer, rfl, -, hmapped, hlayer, hlocal, hmap⟩ :=
    processed_names hrank h.reported
  · obtain ⟨hfName, hmem, converted, hconverted⟩ := c.convertProcessedParam_global hglobal parameter
    rw [c.convertParam_eq h.text (processMcorePpName_global _ hglobal),
      c.convertParam_eq h.text (processMcorePpName_global _ hglobal), hconverted, hconverted]
    refine iff_of_true (namesAgree_single hmem converted) ?_
    cases param with
    | layer layer remaining =>
      have hstart : ∀ text ∈ globalNames, ¬ ("decoder.layers." : Name) <+: text := by decide
      exact absurd rfl (layerName_ne layer remaining (hstart _ hglobal))
    | _ => trivial
  · have hglobalLayer := (globalLayer?_mapped hmapped layer).trans hlayer
    rw [c.convertParam_eq h.text hlocal, c.convertParam_eq h.text hmap]
    have hagree := c.namesAgree_layer hmapped.stage hlayer h.supported.1 h.supported.2 (hsync layer globalLayer hglobalLayer)
    refine hagree.trans ⟨?_, fun halike => halike globalLayer hglobalLayer⟩
    intro halike globalLayer' hglobalLayer'
    obtain rfl := Option.some.inj (hglobalLayer.symm.trans hglobalLayer')
    exact halike

theorem synced_step (hrank : c.rankInfo.ppRank < first.ppSize)
    (h : c.StageParam vpStage (first :: others) name parameter param)
    (hsync : Synced (buildPpStageLayerIdMap (first :: others)) (c.rankInfo.ppRank, vpStage) cache writerCache)
    {result result' : List (Name × τ) × AProjCache τ}
    (hresult : (c.withLayerMap Dict.empty).convertParam name parameter vpStage cache = .ok result)
    (hresult' : (c.withLayerMap (buildPpStageLayerIdMap (first :: others))).convertParam name parameter vpStage
      writerCache = .ok result') :
    Synced (buildPpStageLayerIdMap (first :: others)) (c.rankInfo.ppRank, vpStage) result.2 result'.2 := by
  obtain hglobal | ⟨layer, remaining, layerMap, globalLayer, rfl, -, hmapped, hlayer, hlocal, hmap⟩ :=
    processed_names hrank h.reported
  · obtain ⟨hfName, hmem, converted, hconverted⟩ := c.convertProcessedParam_global hglobal parameter
    rw [c.convertParam_eq h.text (processMcorePpName_global _ hglobal), hconverted] at hresult hresult'
    obtain rfl := Except.ok.inj hresult
    obtain rfl := Except.ok.inj hresult'
    exact hsync
  · rw [c.convertParam_eq h.text hlocal] at hresult
    rw [c.convertParam_eq h.text hmap] at hresult'
    have hglobalLayer := (globalLayer?_mapped hmapped layer).trans hlayer
    obtain ⟨aProjs, hcache, hcache'⟩ := c.cache_step (hsync layer globalLayer hglobalLayer) hresult hresult'
    intro layer' globalLayer' hglobalLayer'
    have hlayer' : layerMap.get? layer' = some globalLayer' :=
      (globalLayer?_mapped hmapped layer').symm.trans hglobalLayer'
    rw [hcache, hcache']
    by_cases heq : layer' = layer
    · subst heq
      obtain rfl := Option.some.inj (hlayer.symm.trans hlayer')
      rw [Function.update_self, Function.update_self]
    · have hne : globalLayer' ≠ globalLayer := by
        rintro rfl
        exact heq (hmapped.injective layer' layer globalLayer' hlayer' hlayer)
      have hdigits : digits layer' ≠ digits layer := fun hd => heq (digits_injective hd)
      have hdigits' : digits globalLayer' ≠ digits globalLayer := fun hd => hne (digits_injective hd)
      rw [Function.update_of_ne hdigits, Function.update_of_ne hdigits']
      exact hsync layer' globalLayer' hglobalLayer'

def cacheAfter (c : LinearMlaConverter τ) (ppMap : StageLayerMap) (vpStage : ℕ) (params : List (Name × τ)) :
    Except ConvertError (AProjCache τ) :=
  params.foldlM (fun cache (name, parameter) =>
    ((c.withLayerMap ppMap).convertParam name parameter vpStage cache).map Prod.snd) AProjCache.empty

theorem synced_run (hrank : c.rankInfo.ppRank < first.ppSize) {params : List (Name × τ)}
    (h : ∀ p ∈ params, ∃ param, c.StageParam vpStage (first :: others) p.1 p.2 param)
    (hcache : c.cacheAfter Dict.empty vpStage params = .ok cache)
    (hwriter : c.cacheAfter (buildPpStageLayerIdMap (first :: others)) vpStage params = .ok writerCache) :
    Synced (buildPpStageLayerIdMap (first :: others)) (c.rankInfo.ppRank, vpStage) cache writerCache := by
  unfold cacheAfter at hcache hwriter
  induction params using List.reverseRecOn generalizing cache writerCache with
  | nil =>
    obtain rfl := Except.ok.inj hcache
    obtain rfl := Except.ok.inj hwriter
    exact Synced.empty _ _
  | append_singleton params last ih =>
    rw [List.foldlM_append, Except.bind_eq_ok] at hcache hwriter
    obtain ⟨before, hbefore, hlast⟩ := hcache
    obtain ⟨before', hbefore', hlast'⟩ := hwriter
    simp only [List.foldlM_cons, List.foldlM_nil, bind_pure, Except.map_eq_ok] at hlast hlast'
    obtain ⟨result, hresult, rfl⟩ := hlast
    obtain ⟨result', hresult', rfl⟩ := hlast'
    obtain ⟨param, hparam⟩ := h last (List.mem_append_right params List.mem_cons_self)
    have hsync := ih (fun p hp => h p (List.mem_append_left _ hp)) hbefore hbefore'
    exact c.synced_step hrank hparam hsync hresult hresult'

end LinearMlaConverter

end Linear

section Phases

variable {τ : Type}

/-- The names of a stage's parameter in the metadata are those of the writer: always with the plain
converters, and with the hybrid one exactly when both phases treat the parameter alike. -/
theorem writer_names_agree_iff (first : StageRankMeta) (others : List StageRankMeta) (vpStage : ℕ) (name : Name)
    (parameter : τ) (param : MegatronName) (hname : replaceAll "module." "" name = param.text) :
    (∀ c : McoreConverter τ, c.rankInfo.ppRank < first.ppSize →
      param.Reported (first :: others) (c.rankInfo.ppRank, vpStage) →
      NamesAgree (buildPpStageLayerIdMap (first :: others)) (c.rankInfo.ppRank, vpStage)
        ((c.withLayerMap Dict.empty).convertParam name parameter vpStage)
        ((c.withLayerMap (buildPpStageLayerIdMap (first :: others))).convertParam name parameter vpStage)) ∧
    (∀ c : BailingMoeConverter τ, c.rankInfo.ppRank < first.ppSize →
      param.Reported (first :: others) (c.rankInfo.ppRank, vpStage) →
      NamesAgree (buildPpStageLayerIdMap (first :: others)) (c.rankInfo.ppRank, vpStage)
        ((c.withLayerMap Dict.empty).convertParam name parameter vpStage)
        ((c.withLayerMap (buildPpStageLayerIdMap (first :: others))).convertParam name parameter vpStage)) ∧
    (∀ (c : LinearMlaConverter τ) (earlier : List (Name × τ)) (cache writerCache : AProjCache τ),
      c.rankInfo.ppRank < first.ppSize →
      (∀ p ∈ earlier, ∃ param, c.StageParam vpStage (first :: others) p.1 p.2 param) →
      c.StageParam vpStage (first :: others) name parameter param →
      c.cacheAfter Dict.empty vpStage earlier = .ok cache →
      c.cacheAfter (buildPpStageLayerIdMap (first :: others)) vpStage earlier = .ok writerCache →
      (NamesAgree (buildPpStageLayerIdMap (first :: others)) (c.rankInfo.ppRank, vpStage)
          (((c.withLayerMap Dict.empty).convertParam name parameter vpStage cache).map Prod.fst)
          (((c.withLayerMap (buildPpStageLayerIdMap (first :: others))).convertParam name parameter vpStage
            writerCache).map Prod.fst) ↔
        param.TreatedAlike c (buildPpStageLayerIdMap (first :: others)) (c.rankInfo.ppRank, vpStage))) := by
  refine ⟨?_, ?_, ?_⟩
  · intro c hrank hparam
    have hbind : ∀ converted : Except ConvertError (List (Name × τ)), (converted >>= Except.ok) = converted := by
      intro converted
      cases converted <;> rfl
    have hagree := c.names_agree hrank hparam hname parameter LayerBlind.ok
    rwa [hbind, hbind] at hagree
  · intro c hrank hparam
    exact c.names_agree hrank hparam hname parameter c.layerBlind
  · intro c earlier cache writerCache hrank hearlier hparam hcache hwriter
    exact c.namesAgree_iff hrank hparam (c.synced_run hrank hearlier hcache hwriter)

end Phases

def unitOps : TensorOps Unit where
  rows := fun _ => .ok 2
  narrow := fun _ _ _ => .ok ()
  getFullTensor := id
  convertQkvWeightAlongTpAttention := .ok
  convertQkvBiasAlongTpAttention := .ok
  transformMcoreQkvBias := fun _ => .ok ((), (), ())
  packFusedQkvAProjForTp := fun _ _ => .ok ()
  cat := fun _ _ => .ok ()
  flatten := id
  normalize := id
  toRouterDtype := id
  toFloat32 := id
  perBlockCastToFp8 := fun _ _ => .ok ((), ())

def secondStage : RankInfo where
  tpRank := 0
  tpSize := 1
  ppRank := 1
  ppSize := 2
  dpSize := 1
  dpRank := 0
  epRank := 0
  epSize := 1
  epTpRank := 0
  epTpSize := 1
  attnTpRank := 0
  attnTpSize := 1
  attnDpRank := 0
  worldSize := 2
  globalRank := 1
  localRank := 1
  engineRank := 0
  isInfer := false

def hybridConverter : LinearMlaConverter Unit where
  ops := unitOps
  rankInfo := secondStage
  numExperts := 0
  normHead := false
  ppStageLayerIdMap := Dict.empty
  quantMethod := false
  layerGroupSize := 2
  fuseQkvAProj := true

def unevenStages : List StageRankMeta :=
  [⟨0, 2, [⟨"model.layers.0.input_layernorm.weight", 0⟩]⟩,
    ⟨1, 2, [⟨"model.layers.0.input_layernorm.weight", 0⟩, ⟨"model.layers.1.input_layernorm.weight", 0⟩]⟩]

theorem writer_names_differ :
    ¬ NamesAgree (buildPpStageLayerIdMap unevenStages) (1, 0)
        (((hybridConverter.withLayerMap Dict.empty).convertParam
          "decoder.layers.1.self_attention.linear_qkv.weight" () 0 AProjCache.empty).map Prod.fst)
        (((hybridConverter.withLayerMap (buildPpStageLayerIdMap unevenStages)).convertParam
          "decoder.layers.1.self_attention.linear_qkv.weight" () 0 AProjCache.empty).map Prod.fst) ∧
      ¬ NamesAgree (buildPpStageLayerIdMap unevenStages) (1, 0)
        (((hybridConverter.withLayerMap Dict.empty).convertParam
          "decoder.layers.1.self_attention.linear_gate.weight" () 0 AProjCache.empty).map Prod.fst)
        (((hybridConverter.withLayerMap (buildPpStageLayerIdMap unevenStages)).convertParam
          "decoder.layers.1.self_attention.linear_gate.weight" () 0 AProjCache.empty).map Prod.fst) := by
  -- the last layer is one of lightning attention for the writer only: the metadata has another name for its
  -- projections, and raises at its gate
  unfold NamesAgree
  decide +kernel

theorem writer_names_agree_uneven :
    NamesAgree (buildPpStageLayerIdMap unevenStages) (1, 0)
        ((hybridConverter.toMcoreConverter.withLayerMap Dict.empty).convertParam
          "module.decoder.layers.1.self_attention.linear_proj.weight" () 0)
        ((hybridConverter.toMcoreConverter.withLayerMap (buildPpStageLayerIdMap unevenStages)).convertParam
          "module.decoder.layers.1.self_attention.linear_proj.weight" () 0) ∧
      NamesAgree (buildPpStageLayerIdMap unevenStages) (1, 0)
        (((hybridConverter.withLayerMap Dict.empty).convertParam
          "module.decoder.layers.1.self_attention.linear_proj.weight" () 0 AProjCache.empty).map Prod.fst)
        (((hybridConverter.withLayerMap (buildPpStageLayerIdMap unevenStages)).convertParam
          "module.decoder.layers.1.self_attention.linear_proj.weight" () 0 AProjCache.empty).map Prod.fst) := by
  have hkind : ∀ kind : AttentionKind, Occurs kind.fragment "self_attention.linear_proj.weight" →
      kind = .linearProjWeight := by
    intro kind
    cases kind <;> decide
  have hone : OneParam "self_attention.linear_proj.weight" := by
    intro kind kind' h h'
    rw [hkind kind h, hkind kind' h']
  have hboth : OnBothPaths "self_attention.linear_proj.weight" := ⟨by decide, fun h => absurd h (by decide)⟩
  have htext : replaceAll "module." "" "module.decoder.layers.1.self_attention.linear_proj.weight" =
      (MegatronName.layer 1 "self_attention.linear_proj.weight").text := by
    decide +kernel
  have hreported : (MegatronName.layer 1 "self_attention.linear_proj.weight").Reported unevenStages (1, 0) :=
    ⟨by unfold InLayer; decide, by decide +kernel⟩
  have hagree := writer_names_agree_iff ⟨0, 2, [⟨"model.layers.0.input_layernorm.weight", 0⟩]⟩
    [⟨1, 2, [⟨"model.layers.0.input_layernorm.weight", 0⟩, ⟨"model.layers.1.input_layernorm.weight", 0⟩]⟩] 0
    "module.decoder.layers.1.self_attention.linear_proj.weight" () _ htext
  constructor
  · exact hagree.1 hybridConverter.toMcoreConverter (by decide) hreported
  · have hstage : hybridConverter.StageParam 0 unevenStages
        "module.decoder.layers.1.self_attention.linear_proj.weight" ()
        (.layer 1 "self_attention.linear_proj.weight") :=
      ⟨htext, hreported, hone, fun h => absurd h (by decide)⟩
    apply (hagree.2.2 hybridConverter [] AProjCache.empty AProjCache.empty (by decide) (by simp) hstage rfl rfl).mpr
    intro globalLayer _
    exact .inr (.inr (.inr (.inl hboth)))

end Awex
