import Awex.McoreConverter
import Mathlib.Logic.Function.Basic

namespace Awex

open Text

structure AProjs (τ : Type) where
  qAProj : Option τ
  kvAProj : Option τ

abbrev AProjCache (τ : Type) := Name → AProjs τ

def AProjCache.empty {τ : Type} : AProjCache τ := fun _ => ⟨none, none⟩

structure LinearMlaConverter (τ : Type) extends McoreConverter τ where
  quantMethod : Bool
  layerGroupSize : ℕ
  fuseQkvAProj : Bool

namespace LinearMlaConverter

variable {τ : Type} (c : LinearMlaConverter τ)

def isLinearLayer (layerNumber : ℕ) : Prop :=
  ¬ c.layerGroupSize ≤ 1 ∧ (layerNumber + 1) % c.layerGroupSize ≠ 0

instance (layerNumber : ℕ) : Decidable (c.isLinearLayer layerNumber) :=
  inferInstanceAs (Decidable (_ ∧ _))

def lightningNameMapping : List (String × String) :=
  [("self_attention.input_layernorm.weight", "input_layernorm.weight"),
    ("self_attention.linear_gate.weight", "attention.g_proj.weight"),
    ("self_attention.linear_proj.weight", "attention.dense.weight"),
    ("self_attention.q_layernorm.weight", "attention.query_layernorm.weight"),
    ("self_attention.k_layernorm.weight", "attention.key_layernorm.weight")]

def convertLightningAttentionParam (name : Name) (parameter : τ) : Except ConvertError (List (Name × τ)) :=
  if Occurs "self_attention.pre_gate_norm.te_norm.weight" name then .ok []
  else if Occurs "self_attention.pre_gate_norm.weight" name then
    .ok [("attention.g_norm.weight", c.ops.flatten parameter)]
  else if Occurs "self_attention.gate_norm.weight" name then
    .ok [("attention.g_norm.weight", c.ops.flatten parameter)]
  else match lightningNameMapping.find? (fun (srcName, _) => Occurs srcName name) with
    | some (_, targetName) => .ok [(targetName, parameter)]
    | none =>
      if Occurs "self_attention.linear_qkv.weight" name then do
        let parameter ← c.ops.convertQkvWeightAlongTpAttention parameter
        .ok [("attention.query_key_value.weight", parameter)]
      else c.toMcoreConverter.convertAttentionParam name parameter

def fuseAProjs (layer : AProjs τ) (cache : AProjCache τ) (layerNumber : Name) :
    Except ConvertError (List (Name × τ) × AProjCache τ) :=
  match layer.qAProj, layer.kvAProj with
  | some qAProj, some kvAProj => do
    let fusedTensor ←
      (if c.rankInfo.attnTpSize = 1 then c.ops.cat qAProj kvAProj
      else c.ops.packFusedQkvAProjForTp qAProj kvAProj)
    .ok ([("attention.fused_qkv_a_proj_with_mqa.weight", fusedTensor)],
      Function.update cache layerNumber ⟨none, none⟩)
  | _, _ => .ok ([], Function.update cache layerNumber layer)

def tryFuseQkvAProj (targetName : Name) (parameter : τ) (layerNumber : Name) (cache : AProjCache τ) :
    Except ConvertError (List (Name × τ) × AProjCache τ) :=
  if ("kv_a_proj_with_mqa.weight" : Name) <:+ targetName then
    c.fuseAProjs { cache layerNumber with kvAProj := some parameter } cache layerNumber
  else if ("q_a_proj.weight" : Name) <:+ targetName then
    c.fuseAProjs { cache layerNumber with qAProj := some parameter } cache layerNumber
  else .ok ([(targetName, parameter)], cache)

def mlaNameMapping : List (String × String) :=
  [("input_layernorm.weight", "input_layernorm.weight"),
    ("self_attention.linear_proj.weight", "attention.dense.weight"),
    ("self_attention.linear_q_proj.weight", "attention.q_proj.weight"),
    ("self_attention.linear_kv_down_proj.weight", "attention.kv_a_proj_with_mqa.weight"),
    ("self_attention.linear_q_down_proj.weight", "attention.q_a_proj.weight"),
    ("self_attention.linear_kv_up_proj.weight", "attention.kv_b_proj.weight"),
    ("self_attention.linear_kv_up_proj.layer_norm_weight", "attention.kv_a_layernorm.weight"),
    ("self_attention.linear_q_up_proj.weight", "attention.q_b_proj.weight"),
    ("self_attention.linear_q_up_proj.layer_norm_weight", "attention.q_a_layernorm.weight")]

def convertMlaAttentionParam (name : Name) (parameter : τ) (layerNumber : Name) (cache : AProjCache τ) :
    Except ConvertError (List (Name × τ) × AProjCache τ) :=
  match mlaNameMapping.find? (fun (srcName, _) => Occurs srcName name) with
  | some (_, targetName) =>
    if targetName = "attention.kv_a_proj_with_mqa.weight" ∨ targetName = "attention.q_a_proj.weight" then
      if c.rankInfo.tpRank ≠ 0 then .ok ([], cache)
      else if c.fuseQkvAProj then
        c.tryFuseQkvAProj targetName (c.ops.getFullTensor parameter) layerNumber cache
      else .ok ([(targetName, c.ops.getFullTensor parameter)], cache)
    else .ok ([(targetName, parameter)], cache)
  | none => (c.toMcoreConverter.convertAttentionParam name parameter).map (·, cache)

def mlaParamMarkers : List String :=
  ["linear_q_down_proj", "linear_q_up_proj", "linear_kv_down_proj", "linear_kv_up_proj", "linear_q_proj"]

def isMlaParam (name : Name) : Prop := ∃ marker ∈ mlaParamMarkers, Occurs marker name

instance (name : Name) : Decidable (isMlaParam name) :=
  inferInstanceAs (Decidable (∃ marker ∈ mlaParamMarkers, _))

def convertAttentionParam (name : Name) (parameter : τ) (layerNumber : Name) (cache : AProjCache τ) :
    Except ConvertError (List (Name × τ) × AProjCache τ) :=
  if isMlaParam name then c.convertMlaAttentionParam name parameter layerNumber cache
  else do
    let layer ← parseInt layerNumber
    if c.isLinearLayer layer then (c.convertLightningAttentionParam name parameter).map (·, cache)
    else c.convertMlaAttentionParam name parameter layerNumber cache

def convertLmHeadParam (parameter : τ) : List (Name × τ) := [("lm_head.weight", c.ops.toFloat32 parameter)]

def fp8WeightKeys : List String := ["up_proj.weight", "down_proj.weight", "gate_proj.weight"]

def scaleUe8m0 (paramName : Name) : Option Bool :=
  if Occurs ".experts." paramName ∧ ¬ Occurs "shared_experts" paramName ∧
      ∃ key ∈ fp8WeightKeys, Occurs key paramName then some false
  else none

def postProcessLinearMlaParams (converted : List (Name × τ)) : Except ConvertError (List (Name × τ)) :=
  if c.quantMethod then c.quantizeParams scaleUe8m0 converted else .ok converted

def convertLayerParam (name layerNumber remainingName : Name) (parameter : τ) (cache : AProjCache τ) :
    Except ConvertError (List (Name × τ) × AProjCache τ) :=
  if Occurs "self_attention" remainingName then do
    let (converted, cache) ← c.convertAttentionParam remainingName parameter layerNumber cache
    (c.postProcessLinearMlaParams
      (McoreConverter.inLayer layerNumber (McoreConverter.normalizeAttnNames converted))).map (·, cache)
  else if Occurs "input_layernorm.weight" remainingName ∨ Occurs "g_norm.weight" remainingName then
    (c.postProcessLinearMlaParams (McoreConverter.inLayer layerNumber [(remainingName, parameter)])).map (·, cache)
  else if Occurs "mlp" remainingName then do
    let converted ← c.toMcoreConverter.convertMlp name remainingName parameter
    (c.postProcessLinearMlaParams (McoreConverter.inLayer layerNumber converted)).map (·, cache)
  else .error (.unsupportedParameterName name)

def convertProcessedParam (name : Name) (parameter : τ) (cache : AProjCache τ) :
    Except ConvertError (List (Name × τ) × AProjCache τ) :=
  if name = ("embedding.word_embeddings.weight" : Name) then .ok ([("model.embed_tokens.weight", parameter)], cache)
  else if name = ("decoder.final_layernorm.weight" : Name) then .ok ([("model.norm.weight", parameter)], cache)
  else if Occurs "output_layer.weight" name then
    (c.postProcessLinearMlaParams (c.convertLmHeadParam parameter)).map (·, cache)
  else if ("decoder.layers." : Name) <+: name then
    match splitFirst ['.'] (name.drop ("decoder.layers." : Name).length) with
    | none => .error .notEnoughValues
    | some (layerNumber, remainingName) => c.convertLayerParam name layerNumber remainingName parameter cache
  else .error (.unsupportedParameterName name)

def convertParam (name : Name) (parameter : τ) (vpStage : ℕ) (cache : AProjCache τ) :
    Except ConvertError (List (Name × τ) × AProjCache τ) := do
  let name ← processMcorePpName c.rankInfo vpStage c.ppStageLayerIdMap (replaceAll "module." "" name)
  c.convertProcessedParam name parameter cache

def withLayerMap (ppStageLayerIdMap : StageLayerMap) : LinearMlaConverter τ :=
  { c with ppStageLayerIdMap := ppStageLayerIdMap }

end LinearMlaConverter

end Awex
