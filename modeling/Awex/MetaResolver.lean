import Awex.Library.Dict
import Awex.Library.ExceptList
import Awex.WeightMeta
import Mathlib.Algebra.GroupWithZero.Nat

namespace Awex

inductive RawDtype where
  | torch (dtype : Dtype)
  | name (name : String)
  deriving DecidableEq, Repr

structure RawParamMeta where
  name : String
  shape : List ℕ
  numel : ℕ
  dtype : RawDtype
  deriving DecidableEq, Repr

structure RawRankMeta where
  rankInfo : RankInfo
  paramsMeta : List RawParamMeta
  deriving DecidableEq, Repr

inductive MetaError where
  | unknownShardingType
  | inconsistentReplicas (rankKey name : String) (replicaCounts : List ℕ)
  | missingReplica (replicaIdx count : ℕ)
  | indexError
  | keyError
  deriving DecidableEq, Repr

/-- `getattr(torch, dtype)` for a dtype that is reported by name. -/
def resolveDtype : RawDtype → Dtype
  | .torch dtype => dtype
  | .name "bool" => .bool
  | .name "uint8" => .uint8
  | .name "int8" => .int8
  | .name "int16" => .int16
  | .name "int32" => .int32
  | .name "int64" => .int64
  | .name "float8_e4m3fn" => .float8E4m3fn
  | .name "float8_e5m2" => .float8E5m2
  | .name "bfloat16" => .bfloat16
  | .name "float16" => .float16
  | .name "float32" => .float32
  | .name "float64" => .float64
  | .name s => .unresolved s

/-- The result of `_get_sharding_info`: type, dimension and number of shards. -/
abbrev ShardingInfo := ShardingType × ℕ × ℕ

def getExpertShardingStrategy (shardingDim : ℕ) (_parameterName : String) (rank : RankInfo)
    (_paramMeta : RawParamMeta) : ShardingInfo :=
  if 1 < rank.epSize ∧ 1 < rank.epTpSize then (.epTpSharding, shardingDim, rank.epTpSize)
  else if 1 < rank.epSize then (.epSharding, shardingDim, rank.epSize)
  else if 1 < rank.tpSize then (.tpSharding, shardingDim, rank.tpSize)
  else (.noSharding, shardingDim, 1)

def shardInfo (getShardingInfo : String → RankInfo → RawParamMeta → ShardingInfo)
    (rankInfo : RankInfo) (paramMeta : RawParamMeta) : ParameterShardMeta :=
  let info := getShardingInfo paramMeta.name rankInfo paramMeta
  { name := paramMeta.name
    tpRank := rankInfo.tpRank
    attnTpRank := rankInfo.attnTpRank
    ppRank := rankInfo.ppRank
    epRank := rankInfo.epRank
    epTpRank := rankInfo.epTpRank
    globalRank := rankInfo.globalRank
    engineRank := rankInfo.engineRank
    worldSize := rankInfo.worldSize
    shape := paramMeta.shape
    numel := paramMeta.numel
    dtype := resolveDtype paramMeta.dtype
    shardingType := info.1
    numShards := info.2.2
    shardingDim := info.2.1 }

def shardInfos (getShardingInfo : String → RankInfo → RawParamMeta → ShardingInfo)
    (raw : List RawRankMeta) : List ParameterShardMeta :=
  raw.flatMap (fun rankMeta => rankMeta.paramsMeta.map (shardInfo getShardingInfo rankMeta.rankInfo))

/-- A shard with its identity: replicas refer to the shards of the parameter, and writing
`global_offset` through a replica changes the shard itself. -/
structure ShardObject where
  id : ℕ
  shard : ParameterShardMeta
  deriving DecidableEq, Repr

def shardObjects (shards : List ParameterShardMeta) : List ShardObject :=
  shards.zipIdx.map (fun (shard, i) => ⟨i, shard⟩)

def rankKey : ShardingType → Option (String × (ParameterShardMeta → ℕ))
  | .tpSharding => some ("tp_rank", (·.tpRank))
  | .dpTpSharding => some ("attn_tp_rank", (·.attnTpRank))
  | .epTpSharding => some ("ep_tp_rank", (·.epTpRank))
  | .epSharding => some ("ep_rank", (·.epRank))
  | .noSharding => none

def sortByTpRank (replica : List ShardObject) : List ShardObject :=
  replica.insertionSort (fun x y => x.shard.tpRank ≤ y.shard.tpRank)

/-- One shard of every rank, the `replica_idx`-th that was reported for it. -/
def replicaGroup (rankToShards : Dict ℕ (List ShardObject)) (replicaIdx : ℕ) :
    Except MetaError (List ShardObject) := do
  let replica ← (rankToShards.keys.insertionSort (· ≤ ·)).mapM (fun rk =>
    match (rankToShards.getD rk [])[replicaIdx]? with
    | some shard => .ok shard
    | none => .error (.missingReplica replicaIdx (rankToShards.getD rk []).length))
  .ok (sortByTpRank replica)

def groupReplicas (name key : String) (axis : ParameterShardMeta → ℕ) (shards : List ShardObject) :
    Except MetaError (List (List ShardObject)) :=
  let rankToShards := Dict.groupBy (fun o => axis o.shard) shards
  let replicaCounts := rankToShards.values.map List.length
  match replicaCounts with
  | [] => .error .indexError
  | numReplicas :: _ =>
    if replicaCounts.all (· = numReplicas) then
      (List.range numReplicas).mapM (replicaGroup rankToShards)
    else .error (.inconsistentReplicas key name replicaCounts)

def buildReplicas (name : String) (info : ShardingInfo) (shards : List ShardObject) :
    Except MetaError (List (List ShardObject)) :=
  if info.1 = .noSharding then .ok (shards.map (fun shard => [shard]))
  else if info.2.2 = 1 then .ok [shards]
  else match rankKey info.1 with
    | none => .error .unknownShardingType
    | some (key, axis) => groupReplicas name key axis shards

/-- `shape[i]`. -/
def dimAt (shape : List ℕ) (i : ℕ) : Except MetaError ℕ :=
  match shape[i]? with
  | some n => .ok n
  | none => .error .indexError

def globalShape (numDims shardingDim : ℕ) (firstReplica : List ShardObject) :
    Except MetaError (List ℕ) :=
  (List.range numDims).mapM (fun i =>
    if i = shardingDim then
      (firstReplica.mapM (fun o => dimAt o.shard.shape i)).map List.sum
    else match firstReplica with
      | [] => .error .indexError
      | o :: _ => dimAt o.shard.shape i)

def advanceOffsets (shardingDim : ℕ) (prevOffsets shape : List ℕ) : Except MetaError (List ℕ) :=
  prevOffsets.zipIdx.mapM (fun (offset, i) =>
    if i = shardingDim then (dimAt shape i).map (offset + ·) else .ok offset)

/-- The `global_offset` that the walk over a replica writes into each of its shards. -/
def replicaOffsets (shardingDim : ℕ) : List ℕ → List ShardObject → Except MetaError (List (ℕ × List ℕ))
  | _, [] => .ok []
  | prevOffsets, o :: replica => do
    let next ← advanceOffsets shardingDim prevOffsets o.shard.shape
    let rest ← replicaOffsets shardingDim next replica
    .ok ((o.id, prevOffsets) :: rest)

/-- A shard once all offsets are written. -/
def writtenShard (offsets : Dict ℕ (List ℕ)) (o : ShardObject) : ParameterShardMeta :=
  match offsets.get? o.id with
  | some offset => { o.shard with globalOffset := offset }
  | none => o.shard

/-- The second loop of `_build_params_meta`, for one parameter. -/
def resolveParamMeta (name : String) (shards : List ParameterShardMeta)
    (replicas : List (List ShardObject)) : Except MetaError ParameterMeta :=
  match shards, replicas with
  | first :: _, firstReplica :: _ => do
    let numDims := first.shape.length
    let shape ← globalShape numDims first.shardingDim firstReplica
    let offsets ← replicas.mapM (replicaOffsets first.shardingDim (List.replicate numDims 0))
    let written := Dict.ofList offsets.flatten
    .ok
      { name := name
        globalNumel := (firstReplica.map (·.shard.numel)).sum
        globalShape := shape
        dtype := first.dtype
        shards := (shardObjects shards).map (writtenShard written)
        replicas := replicas.map (fun replica => ⟨replica.map (writtenShard written)⟩) }
  | _, _ => .error .indexError

def paramShards (getShardingInfo : String → RankInfo → RawParamMeta → ShardingInfo)
    (raw : List RawRankMeta) : Dict String (List ParameterShardMeta) :=
  Dict.groupBy (·.name) (shardInfos getShardingInfo raw)

def paramShardingInfo (getShardingInfo : String → RankInfo → RawParamMeta → ShardingInfo)
    (raw : List RawRankMeta) : Dict String ShardingInfo :=
  Dict.ofList ((shardInfos getShardingInfo raw).map
    (fun s => (s.name, (s.shardingType, s.shardingDim, s.numShards))))

def buildParamsMeta (getShardingInfo : String → RankInfo → RawParamMeta → ShardingInfo)
    (raw : List RawRankMeta) : Except MetaError (List ParameterMeta) := do
  let replicas ← (paramShards getShardingInfo raw).entries.mapM (fun (name, shards) =>
    match (paramShardingInfo getShardingInfo raw).get? name with
    | some info => (buildReplicas name info (shardObjects shards)).map (fun replicas =>
        (name, shards, replicas))
    | none => .error .keyError)
  replicas.mapM (fun (name, shards, replicas) => resolveParamMeta name shards replicas)

/-- Rank `r` of eight Megatron ranks with tensor parallelism 2, expert parallelism 2 and expert
tensor parallelism 4. -/
def expertRankInfo (r : ℕ) : RankInfo where
  tpRank := r % 2
  tpSize := 2
  ppRank := 0
  ppSize := 1
  dpSize := 4
  dpRank := r / 2
  epRank := r / 4
  epSize := 2
  epTpRank := r % 4
  epTpSize := 4
  attnTpRank := r % 2
  attnTpSize := 2
  attnDpRank := r / 2
  worldSize := 8
  globalRank := r
  localRank := r
  engineRank := 0
  isInfer := false

def expertRawMeta : List RawRankMeta :=
  (List.range 8).map (fun r => ⟨expertRankInfo r,
    [⟨if r < 4 then "experts.0.gate_proj.weight" else "experts.1.gate_proj.weight", [2, 3], 6,
      .name "bfloat16"⟩]⟩)

def expertParams : List ParameterMeta :=
  (buildParamsMeta (getExpertShardingStrategy 0) expertRawMeta).toOption.getD []

theorem expertParams_eq :
    buildParamsMeta (getExpertShardingStrategy 0) expertRawMeta = .ok expertParams := rfl

end Awex
