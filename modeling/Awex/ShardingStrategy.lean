import Awex.LinearMlaSharding

namespace Awex

open Text

inductive StrategyEngine where
  | sglang
  | vllm
  | mcore
  deriving DecidableEq, Repr

structure ShardingStrategy where
  engineName : StrategyEngine
  enableDpAttention : Bool
  enableDpLmHead : Bool
  tpSize : ℕ
  epSize : ℕ
  epTpSize : ℕ
  rankInfo : RankInfo

namespace ShardingStrategy

variable (s : ShardingStrategy)

def maybeAdjustShardingDim (_parameterName : Name) (shardingDim : ℕ) : ℕ := shardingDim

def shardingDimOf (parameterName : Name) : ℕ :=
  maybeAdjustShardingDim parameterName (getDefaultShardingDim parameterName)

def getAttentionShardingStrategy (parameterName : Name) : ShardingInfo :=
  if s.enableDpAttention then
    if 1 < s.rankInfo.attnTpSize then (.dpTpSharding, shardingDimOf parameterName, s.rankInfo.attnTpSize)
    else (.noSharding, shardingDimOf parameterName, 1)
  else if 1 < s.rankInfo.tpSize then (.tpSharding, shardingDimOf parameterName, s.rankInfo.tpSize)
  else (.noSharding, shardingDimOf parameterName, 1)

def getEmbeddingShardingStrategy (parameterName : Name) : ShardingInfo :=
  s.getAttentionShardingStrategy parameterName

def getMlpShardingStrategy (parameterName : Name) : ShardingInfo :=
  if 1 < s.rankInfo.tpSize then (.tpSharding, shardingDimOf parameterName, s.rankInfo.tpSize)
  else (.noSharding, shardingDimOf parameterName, 1)

def getExpertShardingStrategy (parameterName : Name) : ShardingInfo :=
  if 1 < s.epSize ∧ 1 < s.epTpSize then (.epTpSharding, shardingDimOf parameterName, s.epTpSize)
  else if 1 < s.epSize then (.epSharding, shardingDimOf parameterName, s.epSize)
  else if 1 < s.tpSize then (.tpSharding, shardingDimOf parameterName, s.tpSize)
  else (.noSharding, shardingDimOf parameterName, 1)

def getSharedExpertShardingStrategy (parameterName : Name) : ShardingInfo :=
  if s.engineName = .mcore then
    if 1 < s.tpSize then (.tpSharding, shardingDimOf parameterName, s.tpSize)
    else (.noSharding, shardingDimOf parameterName, 1)
  else s.getExpertShardingStrategy parameterName

def getLmHeadShardingStrategy (parameterName : Name) : ShardingInfo :=
  if s.enableDpLmHead then
    if 1 < s.rankInfo.attnTpSize then (.dpTpSharding, shardingDimOf parameterName, s.rankInfo.attnTpSize)
    else (.noSharding, shardingDimOf parameterName, 1)
  else if 1 < s.rankInfo.tpSize then (.tpSharding, shardingDimOf parameterName, s.rankInfo.tpSize)
  else (.noSharding, shardingDimOf parameterName, 1)

def getShardingStrategy (parameterName : Name) : ShardingInfo :=
  if s.rankInfo.tpSize = 1 then (.noSharding, shardingDimOf parameterName, 1)
  else if Occurs "input_layernorm" parameterName ∨ Occurs "post_attention_layernorm" parameterName then
    (.noSharding, 0, 1)
  else if Occurs "norm" parameterName then (.noSharding, 0, 1)
  else if Occurs "embedding" parameterName then s.getEmbeddingShardingStrategy parameterName
  else if Occurs "lm_head" parameterName then s.getLmHeadShardingStrategy parameterName
  else if Occurs "expert_bias" parameterName then (.noSharding, 0, 1)
  else if Occurs "shared_experts" parameterName then s.getSharedExpertShardingStrategy parameterName
  else if Occurs "expert" parameterName then s.getExpertShardingStrategy parameterName
  else if Occurs "gate.weight" parameterName ∨ Occurs "router.weight" parameterName then (.noSharding, 0, 1)
  else if Occurs "mlp" parameterName then s.getMlpShardingStrategy parameterName
  else if Occurs "attention" parameterName then s.getAttentionShardingStrategy parameterName
  else (.tpSharding, shardingDimOf parameterName, s.rankInfo.tpSize)

end ShardingStrategy

inductive Projection where
  | gateProj
  | upProj
  | downProj
  deriving DecidableEq, Repr

inductive ParamPart where
  | weight
  | bias
  deriving DecidableEq, Repr

/-- The parameters of a layer that the converter publishes. -/
inductive LayerParam where
  | inputLayernorm
  | postAttentionLayernorm
  | queryLayernorm
  | keyLayernorm
  | queryKeyValue (part : ParamPart)
  | dense (part : ParamPart)
  | gate
  | expertBias
  | sharedExpertGate
  | mlp (proj : Projection) (part : ParamPart)
  | sharedExperts (proj : Projection) (part : ParamPart)
  | experts (expertId : ℕ) (proj : Projection) (part : ParamPart)
  deriving DecidableEq, Repr

inductive HfParam where
  | embedTokens
  | norm
  | lmHead
  | layer (layerNumber : ℕ) (param : LayerParam)
  deriving DecidableEq, Repr

def ParamPart.name : ParamPart → Name
  | .weight => "weight"
  | .bias => "bias"

def Projection.name (proj : Projection) (part : ParamPart) : Name :=
  (match proj with
    | .gateProj => ("gate_proj." : Name)
    | .upProj => "up_proj."
    | .downProj => "down_proj.") ++ part.name

def LayerParam.name : LayerParam → Name
  | .inputLayernorm => "input_layernorm.weight"
  | .postAttentionLayernorm => "post_attention_layernorm.weight"
  | .queryLayernorm => "attention.query_layernorm.weight"
  | .keyLayernorm => "attention.key_layernorm.weight"
  | .queryKeyValue part => ("attention.query_key_value_proj." : Name) ++ part.name
  | .dense part => ("attention.dense." : Name) ++ part.name
  | .gate => "mlp.gate.weight"
  | .expertBias => "mlp.gate.expert_bias"
  | .sharedExpertGate => "mlp.shared_expert_gate.weight"
  | .mlp proj part => ("mlp." : Name) ++ proj.name part
  | .sharedExperts proj part => ("mlp.shared_experts." : Name) ++ proj.name part
  | .experts expertId proj part => ("mlp.experts." : Name) ++ digits expertId ++ ("." : Name) ++ proj.name part

def HfParam.name : HfParam → Name
  | .embedTokens => "model.embed_tokens.weight"
  | .norm => "model.norm.weight"
  | .lmHead => "lm_head.weight"
  | .layer layerNumber param => modelLayer (digits layerNumber) param.name

/-- What a parameter is for. -/
inductive ParamKind where
  | embedding
  | lmHead
  | sharedExpert
  | expert
  | mlp
  | attention
  | unsharded
  deriving DecidableEq, Repr

def LayerParam.kind : LayerParam → ParamKind
  | .inputLayernorm | .postAttentionLayernorm | .queryLayernorm | .keyLayernorm => .unsharded
  | .queryKeyValue _ | .dense _ => .attention
  | .gate | .expertBias | .sharedExpertGate => .unsharded
  | .mlp _ _ => .mlp
  | .sharedExperts _ _ => .sharedExpert
  | .experts _ _ _ => .expert

def HfParam.kind : HfParam → ParamKind
  | .embedTokens => .embedding
  | .norm => .unsharded
  | .lmHead => .lmHead
  | .layer _ param => param.kind

def ShardingStrategy.rule (s : ShardingStrategy) (parameterName : Name) : ParamKind → ShardingInfo
  | .embedding => s.getEmbeddingShardingStrategy parameterName
  | .lmHead => s.getLmHeadShardingStrategy parameterName
  | .sharedExpert => s.getSharedExpertShardingStrategy parameterName
  | .expert => s.getExpertShardingStrategy parameterName
  | .mlp => s.getMlpShardingStrategy parameterName
  | .attention => s.getAttentionShardingStrategy parameterName
  | .unsharded => (.noSharding, 0, 1)

end Awex
