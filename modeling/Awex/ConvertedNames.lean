import Awex.ConvertParameters
import Awex.LayerNames

namespace Awex

open Text

variable {τ : Type}

def isWordEmbedding (name : Name) : Prop :=
  replaceAll "module." "" name = ("embedding.word_embeddings.weight" : Name)

def isOutputLayer (name : Name) : Prop := Occurs "output_layer.weight" (replaceAll "module." "" name)

instance (name : Name) : Decidable (isWordEmbedding name) := inferInstanceAs (Decidable (_ = _))

instance (name : Name) : Decidable (isOutputLayer name) := inferInstanceAs (Decidable (Occurs _ _))

/-- Among the converted names, the embedding and the head come from the parameters of their own. -/
structure HeadNames (embedding head : Prop) (hfNames : List Name) : Prop where
  embedding : ("model.embed_tokens.weight" : Name) ∈ hfNames ↔ embedding
  head : ("lm_head.weight" : Name) ∈ hfNames ↔ head

theorem occurs_around_token {frag : String} (h : NoDigits frag) {token : Name} (htoken : isNumeral token)
    (before after : Name) : Occurs frag (before ++ (token ++ after)) ↔ Occurs frag before ∨ Occurs frag after := by
  apply infix_around htoken.1
  intro c hc hfrag
  have hdigit := htoken.2 c hc
  rw [decimal?_of_not_isDigit (h.2 c hfrag).1 (h.2 c hfrag).2] at hdigit
  cases hdigit

/-- Only the number of a layer changes in a name; a name that ends with it gets a dot. -/
theorem processMcorePpName_cases {rankInfo : RankInfo} {vpStage : ℕ} {ppMap : StageLayerMap} {name text : Name}
    (h : processMcorePpName rankInfo vpStage ppMap name = .ok text) : text = name ∨
      ∃ left token remaining globalLayer, isNumeral token ∧
        (name = left ++ (".layers." : Name) ++ (token ++ '.' :: remaining) ∨
          remaining = [] ∧ name = left ++ (".layers." : Name) ++ token) ∧
        text = left ++ (".layers." : Name) ++ (digits globalLayer ++ '.' :: remaining) := by
  unfold processMcorePpName at h
  by_cases hlayers : Occurs "layers." name
  · rw [if_pos hlayers] at h
    cases hsplit : splitLast (".layers." : Name) name with
    | none =>
      rw [hsplit] at h
      cases h
    | some parts =>
      obtain ⟨left, remains⟩ := parts
      rw [hsplit] at h
      dsimp only at h
      obtain ⟨layer, hlayer, h⟩ := Except.bind_eq_ok.mp h
      have htoken : isNumeral ((splitFirst ['.'] remains).getD (remains, [])).1 := by
        unfold parseInt at hlayer
        split at hlayer
        · rename_i n hn
          exact isNumeral_of_numeral? hn
        · cases hlayer
      by_cases hentries : ppMap.entries = []
      · rw [if_pos hentries] at h
        exact .inl (Except.ok.inj h).symm
      · rw [if_neg hentries] at h
        have hname := splitLast_eq_some hsplit
        split at h
        · cases h
        · split at h
          · cases h
          · rename_i globalLayer hglobal
            have htext := (Except.ok.inj h).symm
            refine .inr ⟨left, _, ((splitFirst ['.'] remains).getD (remains, [])).2, globalLayer, htoken, ?_, ?_⟩
            · cases hdots : splitFirst ['.'] remains with
              | none =>
                right
                exact ⟨rfl, by rw [hname, List.append_assoc]; rfl⟩
              | some parts =>
                left
                rw [hname, (splitFirst_eq_some (List.cons_ne_nil _ _) hdots).1, List.append_assoc]
                rfl
            · rw [htext]
              simp only [List.append_assoc]
              rfl
  · rw [if_neg hlayers] at h
    exact .inl (Except.ok.inj h).symm

theorem occurs_processMcorePpName {rankInfo : RankInfo} {vpStage : ℕ} {ppMap : StageLayerMap} {name text : Name}
    (h : processMcorePpName rankInfo vpStage ppMap name = .ok text) {frag : String} (hfrag : NoDigits frag)
    (hdot : ¬ Occurs frag ".") : Occurs frag text ↔ Occurs frag name := by
  obtain rfl | ⟨left, token, remaining, globalLayer, htoken, hname, rfl⟩ := processMcorePpName_cases h
  · exact Iff.rfl
  · rw [occurs_around hfrag]
    obtain rfl | ⟨rfl, rfl⟩ := hname
    · rw [occurs_around_token hfrag htoken]
    · have hnil : ¬ Occurs frag [] := fun hocc => hfrag.1 (List.infix_nil.mp hocc)
      have hend := occurs_around_token hfrag htoken (left ++ (".layers." : Name)) []
      rw [List.append_nil] at hend
      rw [hend]
      exact or_congr_right (iff_of_false hdot hnil)

theorem processMcorePpName_eq_global {rankInfo : RankInfo} {vpStage : ℕ} {ppMap : StageLayerMap} {name text : Name}
    (h : processMcorePpName rankInfo vpStage ppMap name = .ok text) {globalName : Name}
    (hglobal : ¬ Occurs ".layers." globalName) : text = globalName ↔ name = globalName := by
  have hlayers : ∀ left after : Name, left ++ (".layers." : Name) ++ after ≠ globalName := by
    rintro left after rfl
    exact hglobal (List.infix_append left _ after)
  obtain rfl | ⟨left, token, remaining, globalLayer, -, hname, rfl⟩ := processMcorePpName_cases h
  · exact Iff.rfl
  · obtain rfl | ⟨-, rfl⟩ := hname
    · exact iff_of_false (hlayers _ _) (hlayers _ _)
    · exact iff_of_false (hlayers _ _) (hlayers _ _)

section Layers

variable {params outs : List (Name × τ)}

theorem headNames_of_layers (h : ∀ param ∈ params, ("model.layers." : Name) <+: param.1) :
    HeadNames False False (params.map Prod.fst) := by
  have hne : ∀ hfName : Name, ¬ ("model.layers." : Name) <+: hfName → hfName ∉ params.map Prod.fst := by
    intro hfName hstart hmem
    obtain ⟨param, hparam, rfl⟩ := List.mem_map.mp hmem
    exact hstart (h param hparam)
  constructor
  · exact iff_of_false (hne _ (by decide)) id
  · exact iff_of_false (hne _ (by decide)) id

theorem HeadNames.of_not {embedding head : Prop} {hfNames : List Name} (h : HeadNames False False hfNames)
    (hembedding : ¬ embedding) (hhead : ¬ head) : HeadNames embedding head hfNames :=
  ⟨h.embedding.trans (iff_of_false id hembedding), h.head.trans (iff_of_false id hhead)⟩

theorem inLayer_prefixed (layerNumber : Name) (converted : List (Name × τ)) :
    ∀ param ∈ McoreConverter.inLayer layerNumber converted, ("model.layers." : Name) <+: param.1 := by
  intro param hparam
  obtain ⟨q, -, rfl⟩ := List.mem_map.mp hparam
  exact List.prefix_append _ _

theorem mem_quantizeParam (c : McoreConverter τ) {scale : Name → Option Bool} {param : Name × τ}
    (h : c.quantizeParam scale param = .ok outs) {hfName : Name} (hscale : ¬ ("_scale_inv" : Name) <:+ hfName) :
    hfName ∈ outs.map Prod.fst ↔ hfName = param.1 := by
  unfold McoreConverter.quantizeParam at h
  split at h
  · rw [← Except.ok.inj h, List.map_singleton, List.mem_singleton]
  · obtain ⟨⟨weight, scaleInv⟩, -, h⟩ := Except.bind_eq_ok.mp h
    rw [← Except.ok.inj h, List.map_cons, List.map_singleton, List.mem_cons, List.mem_singleton, or_iff_left]
    rintro rfl
    exact hscale (List.suffix_append _ _)

theorem mem_quantizeParams (c : McoreConverter τ) {scale : Name → Option Bool}
    (h : c.quantizeParams scale params = .ok outs) {hfName : Name} (hscale : ¬ ("_scale_inv" : Name) <:+ hfName) :
    hfName ∈ outs.map Prod.fst ↔ hfName ∈ params.map Prod.fst := by
  obtain ⟨parts, hparts, rfl⟩ := Except.map_eq_ok.mp h
  have hrel := Except.mapM_eq_ok.mp hparts
  clear h hparts
  induction hrel with
  | nil => exact Iff.rfl
  | cons hparam _ ih =>
    rw [List.flatten_cons, List.map_append, List.mem_append, List.map_cons, List.mem_cons]
    exact or_congr (mem_quantizeParam c hparam hscale) ih

theorem HeadNames.quantized {embedding head : Prop} (hnames : HeadNames embedding head (params.map Prod.fst))
    (c : McoreConverter τ) {scale : Name → Option Bool} (h : c.quantizeParams scale params = .ok outs) :
    HeadNames embedding head (outs.map Prod.fst) := by
  constructor
  · rw [mem_quantizeParams c h (by decide), hnames.embedding]
  · rw [mem_quantizeParams c h (by decide), hnames.head]

end Layers

section Converters

variable {vpStage : ℕ} {name text : Name} {parameter : τ} {params : List (Name × τ)}

theorem headNames_single {hfName : Name} {embedding head : Prop}
    (hembedding : ("model.embed_tokens.weight" : Name) = hfName ↔ embedding)
    (hhead : ("lm_head.weight" : Name) = hfName ↔ head) (parameter : τ) :
    HeadNames embedding head ([(hfName, parameter)].map Prod.fst) := by
  constructor
  · rwa [List.map_singleton, List.mem_singleton]
  · rwa [List.map_singleton, List.mem_singleton]

theorem headNames_output (hembedding : text ≠ ("embedding.word_embeddings.weight" : Name))
    (houtput : Occurs "output_layer.weight" text) (parameter : τ) :
    HeadNames (text = ("embedding.word_embeddings.weight" : Name)) (Occurs "output_layer.weight" text)
      ([(("lm_head.weight" : Name), parameter)].map Prod.fst) :=
  headNames_single (iff_of_false (by decide) hembedding) (iff_of_true rfl houtput) parameter

theorem McoreConverter.convertLayerParam_prefix (c : McoreConverter τ) {layerNumber remainingName : Name}
    (h : c.convertLayerParam name layerNumber remainingName parameter = .ok params) :
    ∀ param ∈ params, ("model.layers." : Name) <+: param.1 := by
  unfold convertLayerParam at h
  split_ifs at h
  · obtain ⟨converted, -, rfl⟩ := Except.map_eq_ok.mp h
    exact inLayer_prefixed _ _
  · obtain ⟨converted, -, rfl⟩ := Except.map_eq_ok.mp h
    exact inLayer_prefixed _ _

theorem McoreConverter.processed_headNames (c : McoreConverter τ)
    (h : c.convertProcessedParam text parameter = .ok params) :
    HeadNames (text = ("embedding.word_embeddings.weight" : Name)) (Occurs "output_layer.weight" text)
      (params.map Prod.fst) := by
  unfold convertProcessedParam at h
  by_cases hembedding : text = ("embedding.word_embeddings.weight" : Name)
  · rw [if_pos hembedding] at h
    rw [← Except.ok.inj h, hembedding]
    exact headNames_single (by decide) (by decide) parameter
  · rw [if_neg hembedding] at h
    by_cases hnorm : text = ("decoder.final_layernorm.weight" : Name)
    · rw [if_pos hnorm] at h
      rw [← Except.ok.inj h, hnorm]
      exact headNames_single (by decide) (by decide) parameter
    · rw [if_neg hnorm] at h
      by_cases houtput : Occurs "output_layer.weight" text
      · rw [if_pos houtput] at h
        rw [← Except.ok.inj h]
        exact headNames_output hembedding houtput _
      · rw [if_neg houtput] at h
        dsimp only at h
        split at h
        · cases h
        · exact (headNames_of_layers (c.convertLayerParam_prefix h)).of_not hembedding houtput

theorem HeadNames.of_processed {rankInfo : RankInfo} {ppMap : StageLayerMap} {hfNames : List Name}
    (hname : processMcorePpName rankInfo vpStage ppMap (replaceAll "module." "" name) = .ok text)
    (h : HeadNames (text = ("embedding.word_embeddings.weight" : Name)) (Occurs "output_layer.weight" text) hfNames) :
    HeadNames (isWordEmbedding name) (isOutputLayer name) hfNames := by
  constructor
  · exact h.embedding.trans (processMcorePpName_eq_global hname (by decide))
  · exact h.head.trans (occurs_processMcorePpName hname (by decide) (by decide))

theorem McoreConverter.convertParam_headNames (c : McoreConverter τ)
    (h : c.convertParam name parameter vpStage = .ok params) :
    HeadNames (isWordEmbedding name) (isOutputLayer name) (params.map Prod.fst) := by
  obtain ⟨text, htext, h⟩ := Except.bind_eq_ok.mp h
  exact (c.processed_headNames h).of_processed htext

theorem BailingMoeConverter.convertParam_headNames (c : BailingMoeConverter τ)
    (h : c.convertParam name parameter vpStage = .ok params) :
    HeadNames (isWordEmbedding name) (isOutputLayer name) (params.map Prod.fst) := by
  obtain ⟨superConvertedParams, hsuper, h⟩ := Except.bind_eq_ok.mp h
  have hnames := c.toMcoreConverter.convertParam_headNames hsuper
  split_ifs at h
  · exact hnames.quantized c.toMcoreConverter h
  · rwa [← Except.ok.inj h]

variable {cache : AProjCache τ} {result : List (Name × τ) × AProjCache τ}

theorem HeadNames.postProcessed {embedding head : Prop} (c : LinearMlaConverter τ) {converted : List (Name × τ)}
    (hnames : HeadNames embedding head (converted.map Prod.fst))
    (h : c.postProcessLinearMlaParams converted = .ok params) : HeadNames embedding head (params.map Prod.fst) := by
  unfold LinearMlaConverter.postProcessLinearMlaParams at h
  split_ifs at h
  · exact hnames.quantized c.toMcoreConverter h
  · rwa [← Except.ok.inj h]

theorem LinearMlaConverter.convertLayerParam_headNames (c : LinearMlaConverter τ) {layerNumber remainingName : Name}
    (h : c.convertLayerParam name layerNumber remainingName parameter cache = .ok result) :
    HeadNames False False (result.1.map Prod.fst) := by
  unfold convertLayerParam at h
  split_ifs at h
  · obtain ⟨⟨converted, cache'⟩, -, h⟩ := Except.bind_eq_ok.mp h
    obtain ⟨params, hparams, rfl⟩ := Except.map_eq_ok.mp h
    exact (headNames_of_layers (inLayer_prefixed _ _)).postProcessed c hparams
  · obtain ⟨params, hparams, rfl⟩ := Except.map_eq_ok.mp h
    exact (headNames_of_layers (inLayer_prefixed _ _)).postProcessed c hparams
  · obtain ⟨converted, -, h⟩ := Except.bind_eq_ok.mp h
    obtain ⟨params, hparams, rfl⟩ := Except.map_eq_ok.mp h
    exact (headNames_of_layers (inLayer_prefixed _ _)).postProcessed c hparams

theorem LinearMlaConverter.processed_headNames (c : LinearMlaConverter τ)
    (h : c.convertProcessedParam text parameter cache = .ok result) :
    HeadNames (text = ("embedding.word_embeddings.weight" : Name)) (Occurs "output_layer.weight" text)
      (result.1.map Prod.fst) := by
  unfold convertProcessedParam at h
  by_cases hembedding : text = ("embedding.word_embeddings.weight" : Name)
  · rw [if_pos hembedding] at h
    rw [← Except.ok.inj h, hembedding]
    exact headNames_single (by decide) (by decide) parameter
  · rw [if_neg hembedding] at h
    by_cases hnorm : text = ("decoder.final_layernorm.weight" : Name)
    · rw [if_pos hnorm] at h
      rw [← Except.ok.inj h, hnorm]
      exact headNames_single (by decide) (by decide) parameter
    · rw [if_neg hnorm] at h
      by_cases houtput : Occurs "output_layer.weight" text
      · rw [if_pos houtput] at h
        obtain ⟨params, hparams, rfl⟩ := Except.map_eq_ok.mp h
        exact (headNames_output hembedding houtput _).postProcessed c hparams
      · rw [if_neg houtput] at h
        split_ifs at h
        split at h
        · cases h
        · exact (c.convertLayerParam_headNames h).of_not hembedding houtput

theorem LinearMlaConverter.convertParam_headNames (c : LinearMlaConverter τ)
    (h : c.convertParam name parameter vpStage cache = .ok result) :
    HeadNames (isWordEmbedding name) (isOutputLayer name) (result.1.map Prod.fst) := by
  obtain ⟨text, htext, h⟩ := Except.bind_eq_ok.mp h
  exact (c.processed_headNames h).of_processed htext

theorem WeightConverter.convertParam_headNames (c : WeightConverter τ)
    (h : c.convertParam name parameter vpStage cache = .ok result) :
    HeadNames (isWordEmbedding name) (isOutputLayer name) (result.1.map Prod.fst) := by
  cases c with
  | mcore converter =>
    obtain ⟨params, hparams, rfl⟩ := Except.map_eq_ok.mp h
    exact converter.convertParam_headNames hparams
  | bailingMoe converter =>
    obtain ⟨params, hparams, rfl⟩ := Except.map_eq_ok.mp h
    exact converter.convertParam_headNames hparams
  | linearMla converter => exact converter.convertParam_headNames h

end Converters

end Awex
