import Awex.TransferPlan

namespace Awex

/-- `for i in range(len(vs)): scratch[i] = vs[i]`. -/
def writeScratch : List ScratchCell → List ScratchCell → Except PlanError (List ScratchCell)
  | scratch, [] => .ok scratch
  | [], _ :: _ => .error .indexError
  | _ :: scratch, v :: vs => (writeScratch scratch vs).map (v :: ·)

/-- `reused_shape_obj or [None] * len(replica.shards[0].shape)`. -/
def scratchOrFresh (reusedShapeObj : List ScratchCell) (shards : List ParameterShardMeta) :
    Except PlanError (List ScratchCell) :=
  if reusedShapeObj ≠ [] then .ok reusedShapeObj
  else match shards with
    | [] => .error .indexError
    | shard :: _ => .ok (List.replicate shard.shape.length .none)

/-- `global_transfer_rank is not None and shard_transfer_rank != global_transfer_rank`. -/
def isOtherRank (globalTransferRank : Option ℕ) (shardTransferRank : ℕ) : Bool :=
  globalTransferRank.any (fun g => shardTransferRank ≠ g)

/-- One turn of the loop over `replica.shards`; a shard of another rank is skipped once it has
been validated. -/
def shardOffset (b : TransferPlanBuilder) (engineRank : ℕ) (isInfer : Bool)
    (globalTransferRank : Option ℕ) (scratch : List ScratchCell) (shard : ParameterShardMeta) :
    Except PlanError (Option ShardOffset × List ScratchCell) :=
  if shard.globalOffset = [] then .error .emptyGlobalOffset
  else if shard.globalOffset.length ≠ shard.shape.length then
    .error (.dimensionMismatch shard.globalOffset.length shard.shape.length)
  else do
    let rank ← b.computeShardTransferRank shard engineRank isInfer
    if isOtherRank globalTransferRank rank then .ok (none, scratch)
    else do
      let scratch ← writeScratch scratch
        ((List.zipWith (· + ·) shard.globalOffset shard.shape).map .int)
      .ok (some ⟨shard, shard.globalOffset, scratch, shard.shape, rank⟩, scratch)

def shardOffsets (b : TransferPlanBuilder) (engineRank : ℕ) (isInfer : Bool)
    (globalTransferRank : Option ℕ) :
    List ScratchCell → List ParameterShardMeta → Except PlanError (List ShardOffset × List ScratchCell)
  | scratch, [] => .ok ([], scratch)
  | scratch, shard :: shards => do
    let (entry, scratch) ← shardOffset b engineRank isInfer globalTransferRank scratch shard
    let (shardMap, scratch) ← shardOffsets b engineRank isInfer globalTransferRank scratch shards
    .ok (entry.toList ++ shardMap, scratch)

/-- The caller's list is returned as the loop leaves it. -/
def createShardOffsetForReplica (b : TransferPlanBuilder) (replica : ParameterReplicaMeta)
    (engineRank : ℕ) (isInfer : Bool) (globalTransferRank : Option ℕ)
    (reusedShapeObj : List ScratchCell) : Except PlanError (List ShardOffset × List ScratchCell) := do
  let scratch ← scratchOrFresh reusedShapeObj replica.shards
  if replica.shards = [] then .error .noShards
  else do
    let (shardMap, scratch) ←
      shardOffsets b engineRank isInfer globalTransferRank scratch replica.shards
    .ok (shardMap, if reusedShapeObj = [] then [] else scratch)

/-- The loop over `dim`: `none` when it breaks at a dimension without overlap. -/
def overlapBounds : List ℕ → List ScratchCell → List ℕ → List ScratchCell →
    Except PlanError (Option (List ℕ × List ℕ))
  | [], _, _, _ => .ok (some ([], []))
  | _ :: _, _, [], _ => .error .indexError
  | s :: ss, .int e :: es, t :: ts, .int f :: fs =>
    if max s t ≥ min e f then .ok none
    else (overlapBounds ss es ts fs).map (Option.map (fun (start, stop) => (max s t :: start, min e f :: stop)))
  | _ :: _, [], _ :: _, _ => .error .indexError
  | _ :: _, _ :: _, _ :: _, [] => .error .indexError
  | _ :: _, _ :: _, _ :: _, _ :: _ => .error .typeError

def overlapRegion (inf train : ShardOffset) : Except PlanError (Option OverlapRegion) :=
  (overlapBounds inf.startOffset inf.endOffset train.startOffset train.endOffset).map
    (Option.map (fun (start, stop) => ⟨inf, train, start, stop⟩))

def findOverlappingRegions (inferenceMap trainingMap : List ShardOffset) :
    Except PlanError (List OverlapRegion) := do
  let rows ← inferenceMap.mapM (fun inf => trainingMap.mapM (overlapRegion inf))
  .ok (rows.flatten.filterMap id)

def relativeOffset : List ℕ → List ℕ → Except PlanError (List ℕ)
  | [], _ => .ok []
  | _ :: _, [] => .error .indexError
  | o :: os, s :: ss => (relativeOffset os ss).map ((o - s) :: ·)

/-- `slice(offset[i], offset[i] + overlap_shape[i])` for every index of the scratch list. -/
def sliceCells : List ScratchCell → List ℕ → Except PlanError (List Slice)
  | [], _ => .ok []
  | _ :: _, [] => .error .indexError
  | .int r :: rs, n :: ns => (sliceCells rs ns).map (⟨r, r + n⟩ :: ·)
  | _ :: _, _ :: _ => .error .typeError

def intCells : List ScratchCell → Except PlanError (List ℕ)
  | [] => .ok []
  | .int n :: cells => (intCells cells).map (n :: ·)
  | _ :: _ => .error .typeError

def checkRanks (b : TransferPlanBuilder) (sendRank recvRank : ℕ) : Except PlanError Unit :=
  if sendRank = recvRank then .error .sameRank
  else if sendRank < b.inferWorldSize then
    .error (.sendRankOutside sendRank b.inferWorldSize b.worldSize)
  else if b.inferWorldSize ≤ recvRank then .error (.recvRankOutside recvRank b.inferWorldSize)
  else .ok ()

def buildRegionCommunicationPlan (b : TransferPlanBuilder) (region : OverlapRegion)
    (reusedShapeObj : List ScratchCell) :
    Except PlanError (CommunicationOperation × List ScratchCell) := do
  let inf := region.inferenceShard
  let train := region.trainingShard
  let scratch := if reusedShapeObj ≠ [] then reusedShapeObj
    else List.replicate inf.shape.length .none
  let overlapShape := List.zipWith (· - ·) region.overlapEnd region.overlapStart
  let infRelative ← relativeOffset region.overlapStart inf.startOffset
  let infCells ← writeScratch scratch (infRelative.map .int)
  let trainRelative ← relativeOffset region.overlapStart train.startOffset
  let trainCells ← writeScratch infCells (trainRelative.map .int)
  let trainSlices ← sliceCells trainCells overlapShape
  let infSlices ← sliceCells infCells overlapShape
  let sendOffset ← intCells trainCells
  let recvOffset ← intCells infCells
  checkRanks b train.rank inf.rank
  .ok (⟨train.rank, train.shard, sendOffset, inf.rank, inf.shard, recvOffset, overlapShape,
    trainSlices, infSlices⟩, if reusedShapeObj = [] then [] else infSlices.map .slice)

def buildRegions (b : TransferPlanBuilder) :
    List ScratchCell → List OverlapRegion → Except PlanError (List CommunicationOperation)
  | _, [] => .ok []
  | scratch, region :: regions => do
    let (op, scratch) ← buildRegionCommunicationPlan b region scratch
    let plan ← buildRegions b scratch regions
    .ok (op :: plan)

/-- `[None] * len(training_replica.shards[0].shape)`. -/
def initialScratch (trainingReplica : ParameterReplicaMeta) : Except PlanError (List ScratchCell) :=
  match trainingReplica.shards with
  | [] => .error .indexError
  | shard :: _ => .ok (List.replicate shard.shape.length .none)

/-- The plan of one inference replica and the training replica assigned to it; the two calls
below share the scratch list. -/
def buildReplicaPlan (b : TransferPlanBuilder) (globalTransferRank : Option ℕ) (engineRank : ℕ)
    (inferenceReplica trainingReplica : ParameterReplicaMeta) :
    Except PlanError (List CommunicationOperation) := do
  let scratch ← initialScratch trainingReplica
  let (inferenceShardOffsets, scratch) ← createShardOffsetForReplica b inferenceReplica engineRank
    true (globalTransferRank.filter (· < b.inferWorldSize)) scratch
  let (trainingShardOffsets, scratch) ← createShardOffsetForReplica b trainingReplica 0
    false (globalTransferRank.filter (b.inferWorldSize ≤ ·)) scratch
  let regions ← findOverlappingRegions inferenceShardOffsets trainingShardOffsets
  buildRegions b scratch regions

end Awex
