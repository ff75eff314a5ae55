import Awex.LocalPlan
import Awex.MappingSpec

namespace Awex

theorem keptShards_some (b : TransferPlanBuilder) (engineRank : ℕ) (isInfer : Bool) (g : ℕ)
    (shards : List ParameterShardMeta) :
    keptShards b engineRank isInfer (some g) shards =
      (keptShards b engineRank isInfer none shards).filter (fun p => p.2 = g) := by
  simp only [keptShards, List.filter_filter]
  apply List.filter_congr
  intro p _
  simp [isOtherRank]

theorem keptInference_some (b : TransferPlanBuilder) (g engineRank : ℕ)
    (replica : ParameterReplicaMeta) :
    keptInference b (some g) engineRank replica =
      (keptInference b none engineRank replica).filter (fun p => isTrainRank b g ∨ p.2 = g) := by
  by_cases hg : g < b.inferWorldSize
  · simp [keptInference, isTrainRank, Option.filter, hg, keptShards_some, not_le.mpr hg]
  · simp [keptInference, isTrainRank, Option.filter, hg, not_lt.mp hg]

theorem keptTraining_some (b : TransferPlanBuilder) (g : ℕ) (replica : ParameterReplicaMeta) :
    keptTraining b (some g) replica =
      (keptTraining b none replica).filter (fun q => ¬ isTrainRank b g ∨ q.2 = g) := by
  by_cases hg : b.inferWorldSize ≤ g
  · simp [keptTraining, isTrainRank, Option.filter, hg, keptShards_some]
  · simp [keptTraining, isTrainRank, Option.filter, hg]

theorem row_recvRank (g : ℕ) (p : PlacedShard) (qs : List PlacedShard) :
    (qs.filterMap (overlapItem p)).filter (fun i => (itemOperation i).recvRank = g) =
      if p.2 = g then qs.filterMap (overlapItem p) else [] := by
  split_ifs with hp
  · apply List.filter_eq_self.mpr
    intro i hi
    obtain ⟨q, -, hq⟩ := List.mem_filterMap.mp hi
    simp [itemOperation, regionOperation, (overlapItem_eq_some.mp hq).1, hp]
  · apply List.filter_eq_nil_iff.mpr
    intro i hi
    obtain ⟨q, -, hq⟩ := List.mem_filterMap.mp hi
    simp [itemOperation, regionOperation, (overlapItem_eq_some.mp hq).1, hp]

theorem row_sendRank (g : ℕ) (p : PlacedShard) (qs : List PlacedShard) :
    (qs.filterMap (overlapItem p)).filter (fun i => (itemOperation i).sendRank = g) =
      (qs.filter (fun q => q.2 = g)).filterMap (overlapItem p) := by
  rw [List.filter_filterMap, List.filterMap_filter]
  apply List.filterMap_congr
  intro q _
  cases hi : overlapItem p q with
  | none => simp
  | some i =>
    have hq := (overlapItem_eq_some.mp hi).2.1
    by_cases hg : q.2 = g <;> simp [Option.filter, itemOperation, regionOperation, hq, hg]

theorem replicaItems_some (b : TransferPlanBuilder) (g engineRank : ℕ)
    (inference training : ParameterReplicaMeta) :
    replicaItems b (some g) engineRank inference training =
      (replicaItems b none engineRank inference training).filter
        (fun i => ownRank b g (itemOperation i) = g) := by
  unfold replicaItems ownRank
  rw [keptInference_some, keptTraining_some, List.filter_flatMap]
  cases hg : isTrainRank b g with
  | true =>
    simp only [true_or, decide_true, List.filter_true, not_true_eq_false, false_or, ↓reduceIte,
      row_sendRank]
  | false =>
    simp only [Bool.false_eq_true, false_or, not_false_eq_true, true_or, decide_true,
      List.filter_true, ↓reduceIte, row_recvRank]
    induction keptInference b none engineRank inference with
    | nil => rfl
    | cons p ps ih => by_cases hp : p.2 = g <;> simp [hp, ih]

theorem ReplicaOk.prune {b : TransferPlanBuilder} {engineRank : ℕ}
    {inference training : ParameterReplicaMeta} (g : ℕ)
    (h : ReplicaOk b none engineRank inference training) :
    ReplicaOk b (some g) engineRank inference training := by
  have hi : ∀ p ∈ keptInference b (some g) engineRank inference,
      p ∈ keptInference b none engineRank inference := by
    intro p hp
    rw [keptInference_some] at hp
    exact List.mem_of_mem_filter hp
  have ht : ∀ q ∈ keptTraining b (some g) training, q ∈ keptTraining b none training := by
    intro q hq
    rw [keptTraining_some] at hq
    exact List.mem_of_mem_filter hq
  refine ⟨h.inference_ne, h.training_ne, h.inference_valid, h.training_valid,
    fun p hp => h.inference_fits p (hi p hp), fun q hq => h.training_fits q (ht q hq),
    fun p hp q hq => h.overlaps p (hi p hp) q (ht q hq), ?_⟩
  intro i hitem
  rw [replicaItems_some] at hitem
  exact h.items i (List.mem_of_mem_filter hitem)

theorem parameterOperations_some (b : TransferPlanBuilder) (g : ℕ) (im tm : ParameterMeta) :
    parameterOperations b (some g) im tm = ownOperations b g (parameterOperations b none im tm) := by
  unfold parameterOperations ownOperations
  rw [List.filter_flatMap]
  simp only [replicaItems_some, List.filter_map, Function.comp_def]

theorem plannedOperations_some (b : TransferPlanBuilder) (infer train : List ParameterMeta) (g : ℕ) :
    plannedOperations b infer train (some g) =
      ownOperations b g (plannedOperations b infer train none) := by
  rw [plannedOperations, plannedOperations, ownOperations, List.filter_flatMap]
  apply List.flatMap_congr
  intro name _
  unfold namedOperations
  split
  · exact parameterOperations_some b g _ _
  · rfl

theorem ownOperations_idem (b : TransferPlanBuilder) (g : ℕ) (ops : List CommunicationOperation) :
    ownOperations b g (ownOperations b g ops) = ownOperations b g ops := by
  simp [ownOperations, List.filter_filter]

theorem MappingOk.prune {b : TransferPlanBuilder} {infer train : List ParameterMeta} (g : ℕ)
    (h : MappingOk b infer train none) : MappingOk b infer train (some g) := by
  refine ⟨h.keys, fun name hname im tm hi ht => ?_⟩
  have hp := h.params name hname im tm hi ht
  exact ⟨hp.inference_ne, hp.training_ne, fun a ha => (hp.replicas a ha).prune g⟩

theorem pruned_planning (b : TransferPlanBuilder) (infer train : List ParameterMeta)
    (ops : List CommunicationOperation)
    (h : buildWeightsMappingOperations b infer train none = .ok ops) (g : ℕ) :
    ∃ pruned, buildWeightsMappingOperations b infer train (some g) = .ok pruned ∧
      ownOperations b g pruned = ownOperations b g ops := by
  obtain ⟨hok, rfl⟩ := (buildWeightsMappingOperations_ok_iff b infer train none ops).mp h
  refine ⟨plannedOperations b infer train (some g), ?_, ?_⟩
  · refine (buildWeightsMappingOperations_ok_iff b infer train (some g) _).mpr ⟨?_, rfl⟩
    exact hok.imp_right (fun hm => hm.prune g)
  · rw [plannedOperations_some, ownOperations_idem]

theorem pruned_planning_gateProj :
    ∃ pruned, buildWeightsMappingOperations .twoEngines [gateProjInfer] [gateProjTrain] (some 5) =
        .ok pruned ∧
      ownOperations .twoEngines 5 pruned =
        ownOperations .twoEngines 5 (plannedOperations .twoEngines [gateProjInfer] [gateProjTrain] none) :=
  pruned_planning .twoEngines [gateProjInfer] [gateProjTrain] _ rfl 5

end Awex
