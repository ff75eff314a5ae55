import Awex.Agreement
import Awex.BatchOrder
import Awex.Delivery
import Awex.PlanElements

namespace Awex

variable {α : Type}

/-- Both sides hold a parameter in one data type, and an inference rank holds no element twice. -/
structure HeldTensors (b : TransferPlanBuilder) (parameters : ℕ → Dict String Parameter) : Prop where
  same_dtype : ∀ t r name p q, b.inferWorldSize ≤ t → r < b.inferWorldSize →
    (parameters t).get? name = some p → (parameters r).get? name = some q → p.dtype = q.dtype
  distinct_storage : ∀ r < b.inferWorldSize, ∀ name name' q q', (parameters r).get? name = some q →
    (parameters r).get? name' = some q' → q.storage = q'.storage → name = name'
  distinct_elements : ∀ r < b.inferWorldSize, ∀ name q, (parameters r).get? name = some q →
    ∀ x ∈ Box.origin q.inference.shape, ∀ x' ∈ Box.origin q.inference.shape,
      q.inference.locate x = q.inference.locate x' → x = x'

/-- Ranks hold the tensors that the metadata reports for them. -/
structure Deployment (b : TransferPlanBuilder) (infer train : List ParameterMeta)
    (parameters : ℕ → Dict String Parameter) : Prop extends HeldTensors b parameters where
  train_rank : ∀ name tm, (metaDict train).get? name = some tm → ∀ r ∈ tm.replicas, ∀ s ∈ r.shards,
    s.globalRank < b.trainWorldSize
  train_shard : ∀ name tm, (metaDict train).get? name = some tm → ∀ r ∈ tm.replicas, ∀ s ∈ r.shards,
    ∃ p, (parameters (s.globalRank + b.inferWorldSize)).get? s.name = some p ∧ p.training.shape = s.shape
  infer_name : ∀ name im, (metaDict infer).get? name = some im → ∀ r ∈ im.replicas, ∀ s ∈ r.shards,
    s.name = name
  infer_shard : ∀ name im, (metaDict infer).get? name = some im → ∀ e < b.numInferEngines,
    ∀ r ∈ im.replicas, ∀ s ∈ r.shards,
      ∃ q, (parameters (s.globalRank + e * b.inferInstanceWorldSize)).get? s.name = some q ∧
        q.inference.shape = s.shape

def ReceivedFor (parameters : Dict String Parameter) (e : ℕ × CommunicationOperation) (p2p : P2POp) :
    Prop :=
  ∃ l : Landing, l.entry = e ∧ l.p2p = p2p ∧ LandingOk parameters l

theorem SentFor.peer_eq {parameters : Dict String Parameter} {m : Memory α}
    {e : ℕ × CommunicationOperation} {p2p : P2POp} (h : SentFor parameters m e p2p) : p2p.peer = e.1 :=
  h.2.1

theorem ReceivedFor.peer_eq {parameters : Dict String Parameter} {e : ℕ × CommunicationOperation}
    {p2p : P2POp} (h : ReceivedFor parameters e p2p) : p2p.peer = e.1 := by
  obtain ⟨l, rfl, rfl, -⟩ := h
  rfl

section Plans

variable {b : TransferPlanBuilder} {infer train : List ParameterMeta} {plan : ℕ → TransferPlan}
  {parameters : ℕ → Dict String Parameter}

theorem getD_pairOperations {ops : List CommunicationOperation} {t r : ℕ}
    {d : Dict ℕ (List CommunicationOperation)} {k : ℕ}
    (h : d.get? k = if ∃ op ∈ ops, op.sendRank = t ∧ op.recvRank = r then some (pairOperations ops t r)
      else none) : planned d k = pairOperations ops t r := by
  rw [planned, Dict.getD, h]
  split_ifs with hex
  · rfl
  · have hnil : ops.filter (fun op => op.sendRank = t ∧ op.recvRank = r) = [] := by
      apply List.filter_eq_nil_iff.mpr
      intro op hop
      simpa using fun ht hr => hex ⟨op, hop, ht, hr⟩
    rw [pairOperations, hnil]
    rfl

theorem planned_train (hplan : ∀ g < b.worldSize, buildLocalTransferPlan b infer train g = .ok (plan g))
    {t : ℕ} (ht : b.inferWorldSize ≤ t) (htw : t < b.worldSize) (r : ℕ) :
    planned (plan t).operations r = pairOperations (plannedOperations b infer train none) t r :=
  getD_pairOperations (trainPlan_get? b infer train t r ht _ (hplan t htw))

theorem planned_infer (hplan : ∀ g < b.worldSize, buildLocalTransferPlan b infer train g = .ok (plan g))
    {r : ℕ} (hr : r < b.inferWorldSize) (t : ℕ) :
    planned (plan r).operations t = pairOperations (plannedOperations b infer train none) t r :=
  getD_pairOperations (inferPlan_get? b infer train t r hr _
    (hplan r (hr.trans_le (Nat.le_add_left _ _))))

theorem plan_mapped {g : ℕ} {localPlan : TransferPlan}
    (h : buildLocalTransferPlan b infer train g = .ok localPlan) :
    ∃ g' ops, buildWeightsMappingOperations b infer train g' = .ok ops := by
  rw [buildLocalTransferPlan, Except.bind_eq_ok] at h
  obtain ⟨ops, hops, -⟩ := h
  exact ⟨_, ops, hops⟩

theorem mem_pairOperations {ops : List CommunicationOperation} {t r : ℕ} {op : CommunicationOperation} :
    op ∈ pairOperations ops t r ↔ op ∈ ops ∧ op.sendRank = t ∧ op.recvRank = r := by
  rw [pairOperations, List.mem_insertionSort, List.mem_filter, decide_eq_true_eq]

theorem pairOperations_nodup {ops : List CommunicationOperation} (h : ops.Nodup) (t r : ℕ) :
    (pairOperations ops t r).Nodup := by
  rw [pairOperations, (List.perm_insertionSort _ _).nodup_iff]
  exact h.filter _

theorem send_lt (hmeta : CommonMetadata b infer train) (hdeploy : Deployment b infer train parameters)
    {op : CommunicationOperation} (hop : op ∈ plannedOperations b infer train none) :
    op.sendRank < b.worldSize := by
  obtain ⟨-, -, -, name, im, tm, i, e, r, t, hi, ht, ha⟩ := planned_law hmeta hop
  have hlt := hdeploy.train_rank name tm ht t (List.mem_of_getElem? ha.assignment) _ ha.send_shard
  rw [ha.send_rank, TransferPlanBuilder.worldSize]
  omega

theorem send_slice (hmeta : CommonMetadata b infer train) (hdeploy : Deployment b infer train parameters)
    {op : CommunicationOperation} (hop : op ∈ plannedOperations b infer train none) :
    ∃ p v, SendSlice (parameters op.sendRank) op p v ∧
      PartOf p.training v op.sendOffset op.overlapShape := by
  obtain ⟨hsame, -, -, name, im, tm, i, e, r, t, hi, ht, ha⟩ := planned_law hmeta hop
  obtain ⟨p, hp, hshape⟩ := hdeploy.train_shard name tm ht t (List.mem_of_getElem? ha.assignment) _
    ha.send_shard
  rw [← ha.send_rank] at hp
  exact ⟨p, hsame.sendSlice hp hshape⟩

theorem recv_slice (hmeta : CommonMetadata b infer train) (hdeploy : Deployment b infer train parameters)
    {op : CommunicationOperation} (hop : op ∈ plannedOperations b infer train none) :
    ∃ q v, q.inference.shape = op.recvShardMeta.shape ∧ RecvSlice (parameters op.recvRank) op q v ∧
      PartOf q.inference v op.recvOffset op.overlapShape := by
  obtain ⟨hsame, -, -, name, im, tm, i, e, r, t, hi, ht, ha⟩ := planned_law hmeta hop
  obtain ⟨he, hr⟩ := (mem_inferenceReplicas b im e r).mp (List.mem_of_getElem? ha.replica)
  obtain ⟨q, hq, hshape⟩ := hdeploy.infer_shard name im hi e he r hr _ ha.recv_shard
  rw [← ha.recv_rank] at hq
  exact ⟨q, _, hshape, (hsame.recvSlice hq hshape).choose_spec⟩

theorem shard_names (hmeta : CommonMetadata b infer train) (hdeploy : Deployment b infer train parameters)
    {op : CommunicationOperation} (hop : op ∈ plannedOperations b infer train none) :
    op.sendShardMeta.name = op.recvShardMeta.name := by
  obtain ⟨-, -, -, name, im, tm, i, e, r, t, hi, ht, ha⟩ := planned_law hmeta hop
  obtain ⟨-, hr⟩ := (mem_inferenceReplicas b im e r).mp (List.mem_of_getElem? ha.replica)
  rw [(hmeta.layout name im tm hi ht).train_names t (List.mem_of_getElem? ha.assignment) _ ha.send_shard,
    hdeploy.infer_name name im hi r hr _ ha.recv_shard]

end Plans

end Awex
