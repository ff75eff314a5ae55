import Awex.McoreConverter

namespace Awex

open Text

inductive SglangError where
  | unsupportedAttention (name : Name)
  | unsupportedMlp (name : Name)
  | unsupportedExpert (name : Name)
  | unsupportedLayerNorm (name : Name)
  | noLayerNumber (name : Name)
  | noRouterExperts
  | indexError
  | invalidRange (start length : ℕ)
  deriving DecidableEq, Repr

inductive DeviceBackend where
  | cuda
  | npu
  | cpu
  deriving DecidableEq, Repr

/-- What the converter does to the tensors; `select` is `parameter[i]`. -/
structure SglangOps (τ : Type) where
  ndim : τ → ℕ
  rows : τ → Except SglangError ℕ
  narrow : τ → ℕ → ℕ → Except SglangError τ
  select : τ → ℕ → Except SglangError τ
  transpose : τ → τ

structure SglangConverter (τ : Type) where
  ops : SglangOps τ
  numExperts : Option ℕ
  nRoutedExperts : Option ℕ
  epSize : ℕ
  epRank : ℕ
  deviceBackend : DeviceBackend

namespace SglangConverter

variable {τ : Type} (c : SglangConverter τ)

def useTransposedMoeLayout (name : Name) (parameter : τ) : Prop :=
  ¬ (c.deviceBackend ≠ .npu ∨ c.ops.ndim parameter ≠ 2) ∧ Occurs "experts" name ∧ ¬ Occurs "shared_experts" name

instance (name : Name) (parameter : τ) : Decidable (c.useTransposedMoeLayout name parameter) :=
  inferInstanceAs (Decidable (_ ∧ _))

def splitGateUp (name : Name) (parameter : τ) : Except SglangError (List (Name × τ)) := do
  let stride := (← c.ops.rows parameter) / 2
  let gate ← c.ops.narrow parameter 0 stride
  let up ← c.ops.narrow parameter stride stride
  .ok [(replaceAll "w13_weight" "gate_proj.weight" (replaceAll "gate_up_proj" "gate_proj" name), gate),
    (replaceAll "w13_weight" "up_proj.weight" (replaceAll "gate_up_proj" "up_proj" name), up)]

def fuseQkv (_name : Name) : Bool := true

def fuseGateUpProj (_name : Name) : Bool := false

def convertAttentionParam (name : Name) (parameter : τ) : Except SglangError (List (Name × τ)) :=
  if Occurs "qkv_proj" name ∨ Occurs "query_key_value" name then
    if fuseQkv name then .ok [(name, parameter)]
    else do
      let stride := (← c.ops.rows parameter) / 3
      let query ← c.ops.narrow parameter 0 stride
      let key ← c.ops.narrow parameter stride stride
      let value ← c.ops.narrow parameter (2 * stride) stride
      .ok [(replaceAll "query_key_value" "q_proj" (replaceAll "qkv_proj" "q_proj" name), query),
        (replaceAll "query_key_value" "k_proj" (replaceAll "qkv_proj" "k_proj" name), key),
        (replaceAll "query_key_value" "v_proj" (replaceAll "qkv_proj" "v_proj" name), value)]
  else if Occurs "o_proj" name ∨ Occurs "dense" name then .ok [(name, parameter)]
  else .error (.unsupportedAttention name)

def convertMlpParam (name : Name) (parameter : τ) : Except SglangError (List (Name × τ)) :=
  let parameter := if c.useTransposedMoeLayout name parameter then c.ops.transpose parameter else parameter
  if Occurs "gate_up_proj" name then
    if fuseGateUpProj name then .ok [(name, parameter)] else c.splitGateUp name parameter
  else if Occurs "down_proj" name then .ok [(name, parameter)]
  else if Occurs "w13_weight" name then
    if fuseGateUpProj name then .ok [(replaceAll "w13_weight" "gate_up_proj.weight" name, parameter)]
    else c.splitGateUp name parameter
  else if Occurs "w2_weight" name then .ok [(replaceAll "w2_weight" "down_proj.weight" name, parameter)]
  else .error (.unsupportedMlp name)

/-- `num_experts`, and `n_routed_experts` where that is missing or zero. -/
def numRouterExperts : Except SglangError ℕ :=
  match c.numExperts.filter (· ≠ 0), c.nRoutedExperts with
  | some numExperts, _ => .ok numExperts
  | none, some nRoutedExperts => .ok nRoutedExperts
  | none, none => .error .noRouterExperts

def tpExpertName (name : Name) (expertId numRouterExperts rows : ℕ) : Name :=
  if numRouterExperts ≤ expertId then
    if 1 < rows - numRouterExperts then
      replaceAll "experts" (("shared_experts." : Name) ++ digits (expertId - numRouterExperts)) name
    else replaceAll "experts" "shared_experts" name
  else replaceAll "experts" (("experts." : Name) ++ digits expertId) name

def convertExpertTpParam (name : Name) (parameter : τ) : Except SglangError (List (Name × τ)) := do
  let numRouterExperts ← c.numRouterExperts
  if Occurs "expert_bias" name then .ok [(name, parameter)]
  else if Occurs "shared_experts" name then c.convertMlpParam name parameter
  else do
    let rows ← c.ops.rows parameter
    let convertedParams ← (List.range rows).mapM (fun expertId => do
      let expertParameter ← c.ops.select parameter expertId
      c.convertMlpParam (tpExpertName name expertId numRouterExperts rows) expertParameter)
    .ok convertedParams.flatten

def attachExpertId (baseName : Name) (expertId : ℕ) : Name :=
  if ("mlp.experts." : Name) <+: baseName then
    replaceFirst "mlp.experts." (("mlp.experts." : Name) ++ digits expertId ++ ("." : Name)) baseName
  else if ("mlp." : Name) <+: baseName then
    replaceFirst "mlp." (("mlp.experts." : Name) ++ digits expertId ++ ("." : Name)) baseName
  else ("mlp.experts." : Name) ++ digits expertId ++ ("." : Name) ++ baseName

def convertExpertMoeParam (name : Name) (parameter : τ) : Except SglangError (List (Name × τ)) :=
  if Occurs "expert_bias" name then .ok [(name, parameter)]
  else if Occurs "shared_experts" name then c.convertMlpParam name parameter
  else do
    let numLocalExperts ← c.ops.rows parameter
    let convertedParams ← (List.range numLocalExperts).mapM (fun i => do
      let expertId := i + c.epRank * numLocalExperts
      let expertParameter ← c.ops.select parameter i
      if Occurs "w13_weight" name ∨ Occurs "w2_weight" name then
        (c.convertMlpParam name expertParameter).map (fun converted =>
          converted.map (fun (convertedName, param) => (attachExpertId convertedName expertId, param)))
      else .error (.unsupportedExpert name))
    .ok convertedParams.flatten

def convertLayerNormParam (name : Name) (parameter : τ) : Except SglangError (List (Name × τ)) :=
  if Occurs "input_layernorm" name then .ok [(name, parameter)]
  else if Occurs "post_attention_layernorm" name then .ok [(name, parameter)]
  else if Occurs "query_layernorm" name then .ok [(name, parameter)]
  else if Occurs "key_layernorm" name then .ok [(name, parameter)]
  else .error (.unsupportedLayerNorm name)

def directNameMapping : List (String × String) :=
  [("model.embed_tokens.weight", "model.embed_tokens.weight"), ("model.norm.weight", "model.norm.weight"),
    ("lm_head.weight", "lm_head.weight"), ("model.lm_head.weight", "lm_head.weight")]

/-- The parameters that belong to a layer; `name` still has the layer in it. -/
def convertLayerParam (name layerIdx remainingName : Name) (parameter : τ) :
    Except SglangError (List (Name × τ)) :=
  if Occurs "layernorm" remainingName ∨ Occurs "norm" remainingName then
    (convertLayerNormParam remainingName parameter).map (McoreConverter.inLayer layerIdx)
  else if Occurs "attention" remainingName ∨ Occurs "self_attn" remainingName then
    (c.convertAttentionParam remainingName parameter).map (McoreConverter.inLayer layerIdx)
  else if Occurs "mlp" remainingName then
    if Occurs "gate.weight" remainingName then .ok [(name, parameter)]
    else if Occurs "router.weight" remainingName then .ok [(modelLayer layerIdx "mlp.gate.weight", parameter)]
    else if Occurs ".expert" remainingName ∨ Occurs "experts." remainingName then
      (if c.epSize = 1 then c.convertExpertTpParam remainingName parameter
      else c.convertExpertMoeParam remainingName parameter).map (McoreConverter.inLayer layerIdx)
    else (c.convertMlpParam remainingName parameter).map (McoreConverter.inLayer layerIdx)
  else .ok [(name, parameter)]

def convertParam (name : Name) (parameter : τ) : Except SglangError (List (Name × τ)) :=
  match directNameMapping.find? (fun (sglangName, _) => sglangName.toList = name) with
  | some (_, hfName) => .ok [(hfName, parameter)]
  | none =>
    if Occurs "model.layers." name then
      match (components name).dropWhile (· ≠ ("layers" : Name)) with
      | _ :: layerIdx :: remainingParts =>
        c.convertLayerParam name layerIdx (List.intercalate ['.'] remainingParts) parameter
      | _ => .error (.noLayerNumber name)
    else .ok [(name, parameter)]

end SglangConverter

end Awex
