import Awex.Pruning

namespace Awex

/-- The operations between two ranks, in the order in which both keep them. -/
def pairOperations (ops : List CommunicationOperation) (t r : ℕ) : List CommunicationOperation :=
  (ops.filter (fun op => op.sendRank = t ∧ op.recvRank = r)).insertionSort sortKeyLe

theorem get?_groupOperationsByRank (ops : List CommunicationOperation)
    (key : CommunicationOperation → ℕ) (k : ℕ) :
    (groupOperationsByRank ops key).get? k =
      if k ∈ ops.map key then some ((ops.filter (fun op => key op = k)).insertionSort sortKeyLe)
      else none := by
  rw [groupOperationsByRank, Dict.get?_sortByKey, Dict.get?_mapValues, Dict.get?_groupBy]
  split_ifs <;> rfl

theorem ownOperations_built (b : TransferPlanBuilder) (infer train : List ParameterMeta) (g : ℕ)
    (pruned : Prop) [Decidable pruned] (ops : List CommunicationOperation)
    (h : buildWeightsMappingOperations b infer train (if pruned then some g else none) = .ok ops) :
    ownOperations b g ops = ownOperations b g (plannedOperations b infer train none) := by
  obtain ⟨-, rfl⟩ := (buildWeightsMappingOperations_ok_iff _ _ _ _ _).mp h
  split_ifs
  · rw [plannedOperations_some, ownOperations_idem]
  · rfl

theorem buildLocalTransferPlan_eq (b : TransferPlanBuilder) (infer train : List ParameterMeta) (g : ℕ)
    (plan : TransferPlan) (h : buildLocalTransferPlan b infer train g = .ok plan) :
    plan.operations = groupOperationsByRank
      (ownOperations b g (plannedOperations b infer train none)) (oppositeRank b g) := by
  rw [buildLocalTransferPlan, Except.bind_eq_ok] at h
  obtain ⟨ops, hops, h⟩ := h
  have hown := ownOperations_built b infer train g _ ops hops
  dsimp only at h
  split_ifs at h
  obtain rfl := Except.ok.inj h
  rw [← hown]

theorem localPlan_get? (b : TransferPlanBuilder) (infer train : List ParameterMeta) (g k t r : ℕ)
    (hown : ∀ op, ownRank b g op = g ∧ oppositeRank b g op = k ↔ op.sendRank = t ∧ op.recvRank = r)
    (plan : TransferPlan) (h : buildLocalTransferPlan b infer train g = .ok plan) :
    plan.operations.get? k =
      if ∃ op ∈ plannedOperations b infer train none, op.sendRank = t ∧ op.recvRank = r then
        some (pairOperations (plannedOperations b infer train none) t r)
      else none := by
  rw [buildLocalTransferPlan_eq b infer train g plan h, get?_groupOperationsByRank]
  generalize plannedOperations b infer train none = ops
  have hkey : k ∈ (ownOperations b g ops).map (oppositeRank b g) ↔
      ∃ op ∈ ops, op.sendRank = t ∧ op.recvRank = r := by
    simp only [ownOperations, List.mem_map, List.mem_filter, decide_eq_true_eq, and_assoc, hown]
  have hlist : (ownOperations b g ops).filter (fun op => oppositeRank b g op = k) =
      ops.filter (fun op => op.sendRank = t ∧ op.recvRank = r) := by
    rw [ownOperations, List.filter_filter]
    apply List.filter_congr
    intro op _
    rw [← Bool.decide_and, decide_eq_decide, and_comm]
    exact hown op
  simp only [hkey, hlist, pairOperations]

theorem trainPlan_get? (b : TransferPlanBuilder) (infer train : List ParameterMeta) (t r : ℕ)
    (ht : b.inferWorldSize ≤ t) (plan : TransferPlan)
    (h : buildLocalTransferPlan b infer train t = .ok plan) :
    plan.operations.get? r =
      if ∃ op ∈ plannedOperations b infer train none, op.sendRank = t ∧ op.recvRank = r then
        some (pairOperations (plannedOperations b infer train none) t r)
      else none := by
  refine localPlan_get? b infer train t r t r (fun op => ?_) plan h
  simp [ownRank, oppositeRank, isTrainRank, ht]

theorem inferPlan_get? (b : TransferPlanBuilder) (infer train : List ParameterMeta) (t r : ℕ)
    (hr : r < b.inferWorldSize) (plan : TransferPlan)
    (h : buildLocalTransferPlan b infer train r = .ok plan) :
    plan.operations.get? t =
      if ∃ op ∈ plannedOperations b infer train none, op.sendRank = t ∧ op.recvRank = r then
        some (pairOperations (plannedOperations b infer train none) t r)
      else none := by
  refine localPlan_get? b infer train r t t r (fun op => ?_) plan h
  simp [ownRank, oppositeRank, isTrainRank, not_le.mpr hr, and_comm]

end Awex
