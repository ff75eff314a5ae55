import Awex.Library.Box

namespace Awex

inductive ShardingType where
  | noSharding
  | tpSharding
  | dpTpSharding
  | epSharding
  | epTpSharding
  deriving DecidableEq, Repr

/-- The `torch.dtype`s that weights are stored and exchanged in; a name that torch does not have
stays the string it was reported as. -/
inductive Dtype where
  | bool | uint8 | int8 | int16 | int32 | int64
  | float8E4m3fn | float8E5m2 | bfloat16 | float16 | float32 | float64
  | unresolved (name : String)
  deriving DecidableEq, Repr

/-- The bytes of an element; a name that is no dtype has none. -/
def Dtype.itemsize : Dtype → ℕ
  | .bool | .uint8 | .int8 | .float8E4m3fn | .float8E5m2 => 1
  | .int16 | .bfloat16 | .float16 => 2
  | .int32 | .float32 => 4
  | .int64 | .float64 => 8
  | .unresolved _ => 0

structure RankInfo where
  tpRank : ℕ
  tpSize : ℕ
  ppRank : ℕ
  ppSize : ℕ
  dpSize : ℕ
  dpRank : ℕ
  epRank : ℕ
  epSize : ℕ
  epTpRank : ℕ
  epTpSize : ℕ
  attnTpRank : ℕ
  attnTpSize : ℕ
  attnDpRank : ℕ
  worldSize : ℕ
  globalRank : ℕ
  localRank : ℕ
  engineRank : ℕ
  isInfer : Bool
  deriving DecidableEq, Repr

structure ParameterShardMeta where
  tpRank : ℕ
  attnTpRank : ℕ
  ppRank : ℕ
  epRank : ℕ
  epTpRank : ℕ
  globalRank : ℕ
  worldSize : ℕ
  engineRank : ℕ
  name : String
  shape : List ℕ
  numel : ℕ
  dtype : Dtype
  globalOffset : List ℕ := []
  shardingType : ShardingType := .noSharding
  numShards : ℕ := 1
  shardingDim : ℕ := 0
  deriving DecidableEq, Repr

def ParameterShardMeta.box (shard : ParameterShardMeta) : Box := ⟨shard.globalOffset, shard.shape⟩

structure ParameterReplicaMeta where
  shards : List ParameterShardMeta
  deriving DecidableEq, Repr

structure ParameterMeta where
  name : String
  globalNumel : ℕ
  globalShape : List ℕ
  dtype : Dtype
  shards : List ParameterShardMeta
  replicas : List ParameterReplicaMeta
  deriving DecidableEq, Repr

structure ShardSpec where
  rank : ℕ
  offset : ℕ
  length : ℕ
  deriving DecidableEq, Repr

def ShardSpec.shard (spec : ShardSpec) (name : String) (specs worldSize : ℕ) : ParameterShardMeta where
  tpRank := spec.rank
  attnTpRank := spec.rank
  ppRank := 0
  epRank := 0
  epTpRank := 0
  globalRank := spec.rank
  worldSize := worldSize
  engineRank := 0
  name := name
  shape := [spec.length]
  numel := spec.length
  dtype := .float32
  globalOffset := [spec.offset]
  shardingType := if 1 < specs then .tpSharding else .noSharding
  numShards := max specs 1
  shardingDim := 0

def buildParamMeta (name : String) (specs : List ShardSpec) (globalNumel worldSize : ℕ) :
    ParameterMeta where
  name := name
  globalNumel := globalNumel
  globalShape := [globalNumel]
  dtype := .float32
  shards := specs.map (fun spec => spec.shard name specs.length worldSize)
  replicas := [⟨specs.map (fun spec => spec.shard name specs.length worldSize)⟩]

def gateProjInfer : ParameterMeta :=
  buildParamMeta "model.layers.0.mlp.gate_proj.weight" [⟨0, 0, 3⟩, ⟨1, 3, 5⟩] 8 2

def gateProjTrain : ParameterMeta :=
  buildParamMeta "model.layers.0.mlp.gate_proj.weight" [⟨0, 0, 5⟩, ⟨1, 5, 3⟩] 8 2

end Awex
