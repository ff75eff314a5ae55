import Awex.Library.Dict
import Awex.WeightMeta

namespace Awex

structure Slice where
  start : ℕ
  stop : ℕ
  deriving DecidableEq, Repr

structure CommunicationOperation where
  sendRank : ℕ
  sendShardMeta : ParameterShardMeta
  sendOffset : List ℕ
  recvRank : ℕ
  recvShardMeta : ParameterShardMeta
  recvOffset : List ℕ
  overlapShape : List ℕ
  trainSlices : List Slice
  infSlices : List Slice
  deriving DecidableEq, Repr

/-- What a cell of `reused_shape_obj` holds: it starts as `None`, and later uses of the list
leave their integers and slices behind for the next one. -/
inductive ScratchCell where
  | none
  | int (n : ℕ)
  | slice (s : Slice)
  deriving DecidableEq, Repr

structure ShardOffset where
  shard : ParameterShardMeta
  startOffset : List ℕ
  endOffset : List ScratchCell
  shape : List ℕ
  rank : ℕ
  deriving DecidableEq, Repr

structure OverlapRegion where
  inferenceShard : ShardOffset
  trainingShard : ShardOffset
  overlapStart : List ℕ
  overlapEnd : List ℕ
  deriving DecidableEq, Repr

inductive PlanError where
  | enginesNotPositive
  | keyMismatch (train infer : ℕ) (missingOnInfer extraOnInfer unsupportedExtraOnInfer : List String)
      (strict : Bool)
  | noReplicas (paramName : String)
  | noShards
  | emptyGlobalOffset
  | dimensionMismatch (offsetDims shapeDims : ℕ)
  | trainingEngineRank
  | sameRank
  | sendRankOutside (sendRank inferWorldSize worldSize : ℕ)
  | recvRankOutside (recvRank inferWorldSize : ℕ)
  | foreignOperation (globalTransferRank : ℕ)
  | indexError
  | typeError
  deriving DecidableEq, Repr

structure TransferPlanBuilder where
  inferWorldSize : ℕ
  trainWorldSize : ℕ
  numInferEngines : ℕ
  strictParamKeyMatch : Bool
  enginesPositive : 0 < numInferEngines

namespace TransferPlanBuilder

def init (inferWorldSize trainWorldSize numInferEngines : ℕ) (strictParamKeyMatch : Bool) :
    Except PlanError TransferPlanBuilder :=
  if h : 0 < numInferEngines then
    .ok ⟨inferWorldSize, trainWorldSize, numInferEngines, strictParamKeyMatch, h⟩
  else .error .enginesNotPositive

def worldSize (b : TransferPlanBuilder) : ℕ := b.trainWorldSize + b.inferWorldSize

def inferInstanceWorldSize (b : TransferPlanBuilder) : ℕ := b.inferWorldSize / b.numInferEngines

def computeShardTransferRank (b : TransferPlanBuilder) (shard : ParameterShardMeta)
    (engineRank : ℕ) (isInfer : Bool) : Except PlanError ℕ :=
  if isInfer then .ok (shard.globalRank + engineRank * b.inferInstanceWorldSize)
  else if engineRank = 0 then .ok (shard.globalRank + b.inferWorldSize)
  else .error .trainingEngineRank

/-- Two engines of two ranks each, fed by two training ranks. -/
def twoEngines : TransferPlanBuilder := ⟨4, 2, 2, false, by decide⟩

end TransferPlanBuilder

end Awex
