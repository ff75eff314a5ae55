import Awex.Library.Dict
import Awex.Library.Text
import Awex.QkvWeight
import Awex.WeightMeta

namespace Awex

open Text

abbrev Name := List Char

instance : Coe String Name := ⟨String.toList⟩

def Occurs (frag : String) (name : Name) : Prop := frag.toList <:+: name

instance (frag : String) (name : Name) : Decidable (Occurs frag name) :=
  inferInstanceAs (Decidable (_ <:+: _))

/-- The global layers of the local ones, for each pipeline rank and virtual stage. -/
abbrev StageLayerMap := Dict (ℕ × ℕ) (Dict ℕ ℕ)

def modelLayer (layerNumber name : Name) : Name :=
  ("model.layers." : Name) ++ (layerNumber ++ '.' :: name)

/-- `int(token)`, for tokens without a sign, blanks or underscores and of at most 4300 digits. -/
def parseInt (token : Name) : Except ConvertError ℕ :=
  match numeral? token with
  | some n => .ok n
  | none => .error (.invalidLiteral token)

def processMcorePpName (rankInfo : RankInfo) (vpStage : ℕ) (ppStageLayerIdMap : StageLayerMap) (name : Name) :
    Except ConvertError Name :=
  if Occurs "layers." name then
    match splitLast (".layers." : Name) name with
    | none => .error .notEnoughValues
    | some (left, remains) => do
      let (token, remaining) := (splitFirst ['.'] remains).getD (remains, [])
      let localLayerId ← parseInt token
      if ppStageLayerIdMap.entries = [] then .ok name
      else match ppStageLayerIdMap.get? (rankInfo.ppRank, vpStage) with
        | none => .error (.missingStageMap rankInfo.ppRank vpStage name)
        | some layerMap => match layerMap.get? localLayerId with
          | none => .error (.missingLocalLayer localLayerId rankInfo.ppRank vpStage name)
          | some globalLayerId =>
            .ok (left ++ (".layers." : Name) ++ digits globalLayerId ++ ("." : Name) ++ remaining)
  else .ok name

/-- What the converters do to the tensors. -/
structure TensorOps (τ : Type) where
  rows : τ → Except ConvertError ℕ
  narrow : τ → ℕ → ℕ → Except ConvertError τ
  getFullTensor : τ → τ
  convertQkvWeightAlongTpAttention : τ → Except ConvertError τ
  convertQkvBiasAlongTpAttention : τ → Except ConvertError τ
  transformMcoreQkvBias : τ → Except ConvertError (τ × τ × τ)
  packFusedQkvAProjForTp : τ → τ → Except ConvertError τ
  cat : τ → τ → Except ConvertError τ
  flatten : τ → τ
  normalize : τ → τ
  toRouterDtype : τ → τ
  toFloat32 : τ → τ
  perBlockCastToFp8 : τ → Bool → Except ConvertError (τ × τ)

structure McoreConverter (τ : Type) where
  ops : TensorOps τ
  rankInfo : RankInfo
  numExperts : ℕ
  normHead : Bool
  ppStageLayerIdMap : StageLayerMap

namespace McoreConverter

variable {τ : Type} (c : McoreConverter τ)

def fuseQkv (_name : Name) : Bool := true

def fuseGateUpProj (_name : Name) : Bool := false

def convertAttentionParam (name : Name) (parameter : τ) : Except ConvertError (List (Name × τ)) :=
  if Occurs "self_attention.linear_qkv.weight" name then
    if fuseQkv name then do
      let parameter ← c.ops.convertQkvWeightAlongTpAttention parameter
      .ok [("self_attn.qkv_proj.weight", parameter)]
    else do
      let stride := (← c.ops.rows parameter) / 3
      let query ← c.ops.narrow parameter 0 stride
      let key ← c.ops.narrow parameter stride stride
      let value ← c.ops.narrow parameter (2 * stride) stride
      .ok [("self_attn.q_proj.weight", query), ("self_attn.k_proj.weight", key),
        ("self_attn.v_proj.weight", value)]
  else if Occurs "self_attention.linear_qkv.bias" name then
    if fuseQkv name then do
      let parameter ← c.ops.convertQkvBiasAlongTpAttention parameter
      .ok [("self_attn.qkv_proj.bias", parameter)]
    else do
      let (query, key, value) ← c.ops.transformMcoreQkvBias parameter
      .ok [("self_attn.q_proj.bias", query), ("self_attn.k_proj.bias", key), ("self_attn.v_proj.bias", value)]
  else if Occurs "self_attention.linear_qkv.layer_norm_weight" name then
    .ok [("input_layernorm.weight", parameter)]
  else if Occurs "self_attention.linear_proj.weight" name then .ok [("self_attn.o_proj.weight", parameter)]
  else if Occurs "self_attention.linear_proj.bias" name then .ok [("self_attn.o_proj.bias", parameter)]
  else if Occurs "self_attention.q_layernorm.weight" name then .ok [("self_attn.q_norm.weight", parameter)]
  else if Occurs "self_attention.k_layernorm.weight" name then .ok [("self_attn.k_norm.weight", parameter)]
  else .error (.unsupportedParameterName name)

/-- The two halves of `linear_fc1`. -/
def splitGateUpProj (gate up : String) (parameter : τ) : Except ConvertError (List (Name × τ)) := do
  let half := (← c.ops.rows parameter) / 2
  let gateProj ← c.ops.narrow parameter 0 half
  let upProj ← c.ops.narrow parameter half half
  .ok [(gate, gateProj), (up, upProj)]

def convertLinear (name : Name) (parameter : τ) : Except ConvertError (List (Name × τ)) :=
  if Occurs "linear_fc1.weight" name then
    if fuseGateUpProj name then .ok [("gate_up_proj.weight", parameter)]
    else c.splitGateUpProj "gate_proj.weight" "up_proj.weight" parameter
  else if Occurs "linear_fc1.bias" name then
    if fuseGateUpProj name then .ok [("gate_up_proj.bias", parameter)]
    else c.splitGateUpProj "gate_proj.bias" "up_proj.bias" parameter
  else if Occurs "linear_fc2.weight" name then .ok [("down_proj.weight", parameter)]
  else if Occurs "linear_fc2.bias" name then .ok [("down_proj.bias", parameter)]
  else .error (.unsupportedParameterName name)

def convertGate (name : Name) (parameter : τ) : Except ConvertError (Name × τ) :=
  if Occurs "router" name ∨ Occurs "gate." name then .ok ("mlp.gate.weight", c.ops.toRouterDtype parameter)
  else .error (.unsupportedParameterName name)

def localExpertId (name : Name) : Except ConvertError ℕ :=
  if Occurs "local_experts" name then
    match (components name).reverse[2]? with
    | some token => parseInt token
    | none => .error .indexError
  else parseInt (((splitLast ("weight" : Name) name).map Prod.snd).getD name)

def convertMlpParam (name : Name) (parameter : τ) : Except ConvertError (List (Name × τ)) :=
  if Occurs "attention" name then .error (.handledInAttention name)
  else if Occurs "pre_mlp_layernorm" name ∨ Occurs "linear_fc1.layer_norm_weight" name then
    .ok [("post_attention_layernorm.weight", parameter)]
  else if Occurs "input_layernorm.weight" name then .ok [("input_layernorm.weight", parameter)]
  else if Occurs "shared_experts.gate_weight" name then .ok [("mlp.shared_expert_gate.weight", parameter)]
  else if Occurs "shared_experts.linear_fc1.weight" name ∨ Occurs "shared_experts.linear_fc1.bias" name ∨
      Occurs "shared_experts.linear_fc2.weight" name ∨ Occurs "shared_experts.linear_fc2.bias" name then do
    let converted ← c.convertLinear name parameter
    .ok (converted.map (fun (target, param) => (("mlp.shared_experts." : Name) ++ target, param)))
  else if Occurs "mlp.experts." name then do
    let localExpertId ← localExpertId name
    if c.rankInfo.epSize = 0 then .error .zeroDivision
    else do
      let expertId := localExpertId + c.rankInfo.epRank * (c.numExperts / c.rankInfo.epSize)
      let converted ← c.convertLinear name parameter
      .ok (converted.map (fun (target, param) =>
        (("mlp.experts." : Name) ++ digits expertId ++ ("." : Name) ++ target, param)))
  else if Occurs "linear_fc1.weight" name ∨ Occurs "linear_fc2.weight" name ∨ Occurs "linear_fc1.bias" name ∨
      Occurs "linear_fc2.bias" name then do
    let converted ← c.convertLinear name parameter
    .ok (converted.map (fun (target, param) => (("mlp." : Name) ++ target, param)))
  else .error (.unsupportedParameterName name)

def convertExpertBiasParam (name : Name) (parameter : τ) : Except ConvertError (Name × τ) :=
  if Occurs "expert_bias" name then .ok ("mlp.gate.expert_bias", c.ops.toFloat32 parameter)
  else .error (.unsupportedBiasParameterName name)

def convertLmHeadParam (parameter : τ) : List (Name × τ) :=
  [("lm_head.weight", if c.normHead then c.ops.normalize parameter else parameter)]

def normalizeAttnName (name : Name) : Name :=
  let name := [("self_attn.qkv_proj", "attention.query_key_value_proj"), ("self_attn.o_proj", "attention.dense"),
    ("self_attn.q_norm", "attention.query_layernorm"), ("self_attn.k_norm", "attention.key_layernorm")].foldl
    (fun (name : Name) (old, new) => if Occurs old name then replaceAll old new name else name) name
  replaceAll "query_key_value_proj_proj" "query_key_value_proj" name

def normalizeAttnNames (converted : List (Name × τ)) : List (Name × τ) :=
  converted.map (fun (name, param) => (normalizeAttnName name, param))

/-- `scaleUe8m0` says whether a parameter is cast, and how its scale is rounded. -/
def quantizeParam (scaleUe8m0 : Name → Option Bool) (converted : Name × τ) :
    Except ConvertError (List (Name × τ)) :=
  match scaleUe8m0 converted.1 with
  | none => .ok [converted]
  | some ue8m0 => do
    let (weight, scale) ← c.ops.perBlockCastToFp8 converted.2 ue8m0
    .ok [(converted.1, weight), (converted.1 ++ ("_scale_inv" : Name), scale)]

def quantizeParams (scaleUe8m0 : Name → Option Bool) (converted : List (Name × τ)) :
    Except ConvertError (List (Name × τ)) :=
  (converted.mapM (c.quantizeParam scaleUe8m0)).map List.flatten

/-- The part for the `mlp` parameters; `name` still has the layer in it. -/
def convertMlp (name remainingName : Name) (parameter : τ) : Except ConvertError (List (Name × τ)) :=
  if Occurs "mlp.gate.weight" name ∨ Occurs "mlp.router.weight" name then
    (c.convertGate name parameter).map (fun converted => [converted])
  else if Occurs "expert_bias" name then
    (c.convertExpertBiasParam name parameter).map (fun converted => [converted])
  else c.convertMlpParam remainingName parameter

def inLayer (layerNumber : Name) (converted : List (Name × τ)) : List (Name × τ) :=
  converted.map (fun (name, param) => (modelLayer layerNumber name, param))

def convertLayerParam (name layerNumber remainingName : Name) (parameter : τ) :
    Except ConvertError (List (Name × τ)) :=
  if Occurs "self_attention" remainingName then
    (c.convertAttentionParam remainingName parameter).map (fun converted =>
      inLayer layerNumber (normalizeAttnNames converted))
  else if Occurs "mlp" remainingName then
    (c.convertMlp name remainingName parameter).map (inLayer layerNumber)
  else .error (.unsupportedParameterName name)

def convertProcessedParam (name : Name) (parameter : τ) : Except ConvertError (List (Name × τ)) :=
  if name = ("embedding.word_embeddings.weight" : Name) then .ok [("model.embed_tokens.weight", parameter)]
  else if name = ("decoder.final_layernorm.weight" : Name) then .ok [("model.norm.weight", parameter)]
  else if Occurs "output_layer.weight" name then .ok (c.convertLmHeadParam parameter)
  else
    let name := replaceAll "decoder.layers." "" name
    match splitFirst ['.'] name with
    | none => .error .notEnoughValues
    | some (layerNumber, remainingName) => c.convertLayerParam name layerNumber remainingName parameter

def convertParam (name : Name) (parameter : τ) (vpStage : ℕ) : Except ConvertError (List (Name × τ)) := do
  let name ← processMcorePpName c.rankInfo vpStage c.ppStageLayerIdMap (replaceAll "module." "" name)
  c.convertProcessedParam name parameter

def withLayerMap (ppStageLayerIdMap : StageLayerMap) : McoreConverter τ :=
  { c with ppStageLayerIdMap := ppStageLayerIdMap }

end McoreConverter

/-- `fp8WeightKeys` in the order in which the set is iterated. -/
structure BailingMoeConverter (τ : Type) extends McoreConverter τ where
  quantMethod : Bool
  fp8WeightKeys : List String
  fp8WeightKeys_perm : fp8WeightKeys.Perm (if quantMethod then ["up_proj.weight", "down_proj.weight",
    "gate_proj.weight", "attention.dense.weight", "attention.query_key_value.weight"] else [])

namespace BailingMoeConverter

variable {τ : Type} (c : BailingMoeConverter τ)

def scaleUe8m0 (paramName : Name) : Option Bool :=
  (c.fp8WeightKeys.find? (fun fp8Key => Occurs fp8Key paramName)).map (fun fp8Key =>
    fp8Key = "attention.dense.weight" ∨
      Occurs ".experts." paramName ∧ Occurs "_proj.weight" fp8Key ∧ ¬ Occurs "down_proj" fp8Key)

def convertParam (name : Name) (parameter : τ) (vpStage : ℕ) : Except ConvertError (List (Name × τ)) := do
  let superConvertedParams ← c.toMcoreConverter.convertParam name parameter vpStage
  if c.quantMethod then c.quantizeParams c.scaleUe8m0 superConvertedParams
  else .ok superConvertedParams

def withLayerMap (ppStageLayerIdMap : StageLayerMap) : BailingMoeConverter τ :=
  { c with ppStageLayerIdMap := ppStageLayerIdMap }

end BailingMoeConverter

end Awex
