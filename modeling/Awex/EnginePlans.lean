import Awex.MetaCheck
import Awex.NcclComm
import Awex.Library.DictMaps
import Awex.Library.ExceptMaps

namespace Awex

/-- What the resolver of engine `e` reports where that of another engine reports `shard`. -/
def ParameterShardMeta.onEngine (e : ℕ) (shard : ParameterShardMeta) : ParameterShardMeta :=
  { shard with engineRank := e }

def ParameterReplicaMeta.onEngine (e : ℕ) (replica : ParameterReplicaMeta) : ParameterReplicaMeta :=
  ⟨replica.shards.map (·.onEngine e)⟩

def ParameterMeta.onEngine (e : ℕ) (p : ParameterMeta) : ParameterMeta :=
  { p with shards := p.shards.map (·.onEngine e), replicas := p.replicas.map (·.onEngine e) }

def ShardOffset.onEngine (e : ℕ) (o : ShardOffset) : ShardOffset := { o with shard := o.shard.onEngine e }

def OverlapRegion.onEngine (e : ℕ) (region : OverlapRegion) : OverlapRegion :=
  { region with inferenceShard := region.inferenceShard.onEngine e }

def CommunicationOperation.onEngine (e : ℕ) (op : CommunicationOperation) : CommunicationOperation :=
  { op with recvShardMeta := op.recvShardMeta.onEngine e }

def TransferPlan.onEngine (e : ℕ) (plan : TransferPlan) : TransferPlan :=
  ⟨plan.operations.mapValues (List.map (·.onEngine e))⟩

variable (b : TransferPlanBuilder) (e : ℕ)

theorem shardOffset_onEngine (engineRank : ℕ) (g : Option ℕ) (scratch : List ScratchCell) (shard : ParameterShardMeta) :
    shardOffset b engineRank true g scratch (shard.onEngine e) =
      (shardOffset b engineRank true g scratch shard).map fun r => (r.1.map (·.onEngine e), r.2) := by
  unfold shardOffset
  change (if shard.globalOffset = [] then _ else if shard.globalOffset.length ≠ shard.shape.length then _ else _) = _
  split_ifs
  · rfl
  · rfl
  · apply Except.bind_map_of
    intro rank
    split_ifs
    · rfl
    · apply Except.bind_map_of
      intro cells
      rfl

theorem shardOffsets_onEngine (engineRank : ℕ) (g : Option ℕ) (scratch : List ScratchCell)
    (shards : List ParameterShardMeta) :
    shardOffsets b engineRank true g scratch (shards.map (·.onEngine e)) =
      (shardOffsets b engineRank true g scratch shards).map fun r => (r.1.map (·.onEngine e), r.2) := by
  induction shards generalizing scratch with
  | nil => rfl
  | cons shard shards ih =>
    rw [List.map_cons, shardOffsets, shardOffsets, shardOffset_onEngine]
    apply Except.bind_map_congr rfl
    intro r
    simp only [ih]
    apply Except.bind_map_congr rfl
    intro r'
    cases r with
    | mk entry cells => cases entry <;> rfl

theorem createShardOffsetForReplica_onEngine (replica : ParameterReplicaMeta) (engineRank : ℕ) (g : Option ℕ)
    (scratch : List ScratchCell) :
    createShardOffsetForReplica b (replica.onEngine e) engineRank true g scratch =
      (createShardOffsetForReplica b replica engineRank true g scratch).map fun r => (r.1.map (·.onEngine e), r.2) := by
  have hscratch : scratchOrFresh scratch (replica.onEngine e).shards = scratchOrFresh scratch replica.shards := by
    unfold scratchOrFresh ParameterReplicaMeta.onEngine
    cases replica.shards <;> rfl
  unfold createShardOffsetForReplica
  rw [hscratch]
  apply Except.bind_map_of
  intro cells
  simp only [ParameterReplicaMeta.onEngine, List.map_eq_nil_iff]
  split_ifs
  · rfl
  · rw [shardOffsets_onEngine]
    apply Except.bind_map_congr rfl
    intro r
    rfl
  · rw [shardOffsets_onEngine]
    apply Except.bind_map_congr rfl
    intro r
    rfl

theorem overlapRegion_onEngine (inf train : ShardOffset) :
    overlapRegion (inf.onEngine e) train = (overlapRegion inf train).map (Option.map (·.onEngine e)) := by
  unfold overlapRegion
  change (overlapBounds inf.startOffset inf.endOffset train.startOffset train.endOffset).map _ = _
  cases overlapBounds inf.startOffset inf.endOffset train.startOffset train.endOffset with
  | error e => rfl
  | ok bounds => cases bounds <;> rfl

theorem findOverlappingRegions_onEngine (inferenceMap trainingMap : List ShardOffset) :
    findOverlappingRegions (inferenceMap.map (·.onEngine e)) trainingMap =
      (findOverlappingRegions inferenceMap trainingMap).map (List.map (·.onEngine e)) := by
  have hrow : ∀ inf ∈ inferenceMap, trainingMap.mapM (overlapRegion (inf.onEngine e)) =
      (trainingMap.mapM (overlapRegion inf)).map (List.map (Option.map (·.onEngine e))) := by
    intro inf _
    exact Except.mapM_map_right fun train _ => overlapRegion_onEngine e inf train
  unfold findOverlappingRegions
  rw [List.mapM_map]
  apply Except.bind_map_congr (Except.mapM_map_right hrow)
  intro rows
  refine congrArg Except.ok ?_
  rw [← List.map_flatten, List.filterMap_map, List.map_filterMap]
  rfl

theorem buildRegionCommunicationPlan_onEngine (region : OverlapRegion) (scratch : List ScratchCell) :
    buildRegionCommunicationPlan b (region.onEngine e) scratch =
      (buildRegionCommunicationPlan b region scratch).map fun r => (r.1.onEngine e, r.2) := by
  unfold buildRegionCommunicationPlan
  iterate 9
    apply Except.bind_map_of
    intro _
  rfl

theorem buildRegions_onEngine (scratch : List ScratchCell) (regions : List OverlapRegion) :
    buildRegions b scratch (regions.map (·.onEngine e)) =
      (buildRegions b scratch regions).map (List.map (·.onEngine e)) := by
  induction regions generalizing scratch with
  | nil => rfl
  | cons region regions ih =>
    rw [List.map_cons, buildRegions, buildRegions, buildRegionCommunicationPlan_onEngine]
    apply Except.bind_map_congr rfl
    intro r
    simp only [ih]
    apply Except.bind_map_congr rfl
    intro plan
    rfl

theorem buildReplicaPlan_onEngine (g : Option ℕ) (engineRank : ℕ) (inference training : ParameterReplicaMeta) :
    buildReplicaPlan b g engineRank (inference.onEngine e) training =
      (buildReplicaPlan b g engineRank inference training).map (List.map (·.onEngine e)) := by
  unfold buildReplicaPlan
  apply Except.bind_map_of
  intro scratch
  rw [createShardOffsetForReplica_onEngine]
  apply Except.bind_map_congr rfl
  intro r
  apply Except.bind_map_of
  intro r'
  simp only [findOverlappingRegions_onEngine]
  apply Except.bind_map_congr rfl
  intro regions
  exact buildRegions_onEngine b e _ regions

theorem replicaAssignments_onEngine (inferenceMeta trainingMeta : ParameterMeta) :
    replicaAssignments b (inferenceMeta.onEngine e) trainingMeta =
      (replicaAssignments b inferenceMeta trainingMeta).map fun r => ((r.1.1, r.1.2.onEngine e), r.2) := by
  have hreplicas : inferenceReplicas b (inferenceMeta.onEngine e) =
      (inferenceReplicas b inferenceMeta).map fun r => (r.1, r.2.onEngine e) := by
    simp [inferenceReplicas, ParameterMeta.onEngine, List.map_flatMap, Function.comp_def]
  unfold replicaAssignments
  rw [hreplicas, List.zipIdx_map, List.filterMap_map, List.map_filterMap]
  apply List.filterMap_congr
  rintro ⟨replica, i⟩ -
  simp only [Function.comp_apply, Prod.map_apply, id_eq, Option.map_map]
  rfl

theorem buildParameterCommunicationPlan_onEngine (name : String) (inferenceMeta trainingMeta : ParameterMeta)
    (g : Option ℕ) :
    buildParameterCommunicationPlan b name (inferenceMeta.onEngine e) trainingMeta g =
      (buildParameterCommunicationPlan b name inferenceMeta trainingMeta g).map (List.map (·.onEngine e)) := by
  have hnone : inferenceReplicas b (inferenceMeta.onEngine e) = [] ↔ inferenceReplicas b inferenceMeta = [] := by
    simp [inferenceReplicas, ParameterMeta.onEngine]
  unfold buildParameterCommunicationPlan
  simp only [hnone]
  split_ifs
  · rfl
  · rw [replicaAssignments_onEngine, List.mapM_map]
    apply Except.bind_map_congr (Except.mapM_map_right fun r _ => buildReplicaPlan_onEngine b e g r.1.1 r.1.2 r.2)
    intro plans
    rw [← List.map_flatten]
    rfl

theorem metaDict_onEngine (infer : List ParameterMeta) :
    metaDict (infer.map (·.onEngine e)) = (metaDict infer).mapValues (·.onEngine e) := by
  unfold metaDict
  rw [← Dict.ofList_map, List.map_map, List.map_map]
  rfl

theorem buildWeightsMappingOperations_onEngine (infer train : List ParameterMeta) (g : Option ℕ) :
    buildWeightsMappingOperations b (infer.map (·.onEngine e)) train g =
      (buildWeightsMappingOperations b infer train g).map (List.map (·.onEngine e)) := by
  unfold buildWeightsMappingOperations
  simp only [List.map_eq_nil_iff, metaDict_onEngine, Dict.keys_mapValues]
  split_ifs
  · rfl
  · cases keyMismatch b (metaDict infer).keys (metaDict train).keys with
    | some mismatch => rfl
    | none =>
      apply Except.bind_map_congr (Except.mapM_map_right (g := List.map (·.onEngine e)) ?_)
      · intro plans
        rw [← List.map_flatten]
        rfl
      · intro name _
        rw [Dict.get?_mapValues]
        cases (metaDict infer).get? name with
        | none => rfl
        | some im =>
          cases (metaDict train).get? name with
          | none => rfl
          | some tm => exact buildParameterCommunicationPlan_onEngine b e name im tm g

theorem groupOperationsByRank_onEngine (ops : List CommunicationOperation) (key : CommunicationOperation → ℕ)
    (hkey : ∀ op, key (op.onEngine e) = key op) :
    groupOperationsByRank (ops.map (·.onEngine e)) key =
      (groupOperationsByRank ops key).mapValues (List.map (·.onEngine e)) := by
  unfold groupOperationsByRank
  rw [Dict.groupBy_map, ← Dict.sortByKey_mapValues, Dict.mapValues_mapValues, Dict.mapValues_mapValues]
  simp only [hkey]
  congr 2
  funext group
  symm
  apply List.map_insertionSort
  intro x _ y _
  rfl

theorem buildLocalTransferPlan_onEngine (infer train : List ParameterMeta) (g : ℕ) :
    buildLocalTransferPlan b (infer.map (·.onEngine e)) train g =
      (buildLocalTransferPlan b infer train g).map (·.onEngine e) := by
  have hcount : countShards (infer.map (·.onEngine e)) = countShards infer := by
    simp [countShards, ParameterMeta.onEngine, ParameterReplicaMeta.onEngine, Function.comp_def]
  have hown : ∀ ops : List CommunicationOperation,
      ownOperations b g (ops.map (·.onEngine e)) = (ownOperations b g ops).map (·.onEngine e) := by
    intro ops
    unfold ownOperations
    rw [List.filter_map]
    rfl
  unfold buildLocalTransferPlan
  simp only [hcount, buildWeightsMappingOperations_onEngine]
  apply Except.bind_map_congr rfl
  intro ops
  have hrank : ∀ op : CommunicationOperation, ownRank b g (op.onEngine e) = ownRank b g op := fun _ => rfl
  simp only [hown, groupOperationsByRank_onEngine e _ (oppositeRank b g) fun _ => rfl, Dict.values_mapValues,
    List.all_map, Function.comp_def, hrank]
  split_ifs <;> rfl

theorem firstReplicaTpSize_onEngine (p : ParameterMeta) : firstReplicaTpSize (p.onEngine e) = firstReplicaTpSize p := by
  unfold firstReplicaTpSize ParameterMeta.onEngine
  cases p.replicas with
  | nil => rfl
  | cons replica replicas => simp [ParameterReplicaMeta.onEngine]

theorem checkTrainInferParamsMeta_onEngine (train infer : List ParameterMeta) (raiseException strictKeyMatch : Bool) :
    checkTrainInferParamsMeta train (infer.map (·.onEngine e)) raiseException strictKeyMatch =
      checkTrainInferParamsMeta train infer raiseException strictKeyMatch := by
  have hparam : ∀ name im tm, checkParamMeta raiseException name (im.onEngine e) tm =
      checkParamMeta raiseException name im tm := by
    intro name im tm
    unfold checkParamMeta
    rw [firstReplicaTpSize_onEngine]
    rfl
  unfold checkTrainInferParamsMeta
  simp only [metaDict_onEngine, Dict.keys_mapValues]
  congr 1
  funext _
  congr 1
  apply Except.mapM_congr
  intro name _
  rw [Dict.get?_mapValues]
  cases (metaDict infer).get? name with
  | none => rfl
  | some im =>
    cases (metaDict train).get? name with
    | none => rfl
    | some tm => exact hparam name im tm

theorem reportMismatch_of_raised {raiseException mismatch : Bool} {error : CheckError} {u : Unit}
    (h : reportMismatch true mismatch error = .ok u) : reportMismatch raiseException mismatch error = .ok u := by
  rw [reportMismatch_ok_iff] at h
  subst h
  rfl

theorem checkTrainInferParamsMeta_of_raised {train infer : List ParameterMeta} {raiseException strictKeyMatch : Bool}
    (h : checkTrainInferParamsMeta train infer true strictKeyMatch = .ok ()) :
    checkTrainInferParamsMeta train infer raiseException strictKeyMatch = .ok () := by
  have hparam : ∀ name im tm u, checkParamMeta true name im tm = .ok u →
      checkParamMeta raiseException name im tm = .ok u := by
    intro name im tm u hok
    simp only [checkParamMeta, checkTpSizes, Except.bind_eq_ok] at hok ⊢
    obtain ⟨u₁, h₁, u₂, h₂, u₃, h₃, n, hn, m, hm, hsizes⟩ := hok
    refine ⟨u₁, reportMismatch_of_raised h₁, u₂, reportMismatch_of_raised h₂, u₃, reportMismatch_of_raised h₃, n, hn, m,
      hm, ?_⟩
    split_ifs at hsizes ⊢
    exact reportMismatch_of_raised hsizes
  simp only [checkTrainInferParamsMeta, Except.bind_eq_ok] at h ⊢
  obtain ⟨u, hkeys, us, hparams, hok⟩ := h
  refine ⟨u, reportMismatch_of_raised hkeys, us, ?_, hok⟩
  rw [Except.mapM_eq_ok] at hparams ⊢
  apply hparams.imp
  intro name u' hname
  cases himeta : (metaDict infer).get? name with
  | none => simp [himeta] at hname
  | some im =>
    cases htmeta : (metaDict train).get? name with
    | none => simp [himeta, htmeta] at hname
    | some tm =>
      simp only [himeta, htmeta] at hname ⊢
      exact hparam name im tm u' hname

section BuildLoop

variable {σ : Type} {emit : ℕ → CommunicationOperation → σ → Except TransferError σ}
  (hemit : ∀ rank op built, emit rank (op.onEngine e) built = emit rank op built)
  (operations : Dict ℕ (List CommunicationOperation))
include hemit

theorem visitRank_onEngine :
    visitRank (operations.mapValues (List.map (·.onEngine e))) emit = visitRank operations emit := by
  funext pass rank
  have hops : (operations.mapValues (List.map (·.onEngine e))).getD rank [] =
      (operations.getD rank []).map (·.onEngine e) := by
    unfold Dict.getD
    rw [Dict.get?_mapValues]
    cases operations.get? rank <;> rfl
  unfold visitRank
  simp only [hops, List.getElem?_map]
  cases (operations.getD rank [])[pass.progress.getD rank 0]? with
  | none => rfl
  | some op => simp only [Option.map_some, hemit]

theorem buildPasses_onEngine (fuel : ℕ) (progress : Dict ℕ ℕ) (unfinishedRanks : List ℕ) (built : σ) :
    buildPasses (operations.mapValues (List.map (·.onEngine e))) emit fuel progress unfinishedRanks built =
      buildPasses operations emit fuel progress unfinishedRanks built := by
  induction fuel generalizing progress unfinishedRanks built with
  | zero => rfl
  | succ fuel ih =>
    unfold buildPasses
    rw [visitRank_onEngine e hemit]
    simp only [ih]

theorem buildLoop_onEngine (built : σ) :
    buildLoop (operations.mapValues (List.map (·.onEngine e))) emit built = buildLoop operations emit built := by
  have hlength : maxLength (operations.mapValues (List.map (·.onEngine e))) = maxLength operations := by
    simp [maxLength, Dict.values_mapValues, Function.comp_def]
  unfold buildLoop
  rw [hlength, Dict.keys_mapValues, buildPasses_onEngine e hemit]

end BuildLoop

variable {α : Type}

theorem ncclBuildSendOps_onEngine (parameters : Dict String Parameter) (plan : TransferPlan) (copyRank : ℤ)
    (useBatchSendRecv : Bool) (memory : Memory α) :
    ncclBuildSendOps parameters (plan.onEngine e) copyRank useBatchSendRecv memory =
      ncclBuildSendOps parameters plan copyRank useBatchSendRecv memory :=
  buildLoop_onEngine e (fun _ _ _ => rfl) plan.operations _

theorem ncclBuildRecvOps_onEngine (parameters : Dict String Parameter) (plan : TransferPlan)
    (useBatchSendRecv : Bool) (memory : Memory α) :
    ncclBuildRecvOps parameters (plan.onEngine e) useBatchSendRecv memory =
      ncclBuildRecvOps parameters plan useBatchSendRecv memory :=
  buildLoop_onEngine e (fun _ _ _ => rfl) plan.operations _

end Awex
