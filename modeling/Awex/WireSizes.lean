import Awex.ChunkClones
import Awex.ContiguousBuffers
import Awex.MetaCheck

namespace Awex

open ColocateUpdate NcclColocateTransport

variable {α : Type}

def wireSizes (itemsize : Dtype → ℕ) (posted : List P2POp) (d : Direction) (peer : ℕ) : List ℕ :=
  (posted.filter (fun op => op.op = d ∧ op.peer = peer)).map (fun op => op.tensor.numel * itemsize op.tensor.dtype)

def CommunicationOperation.sendBytes (itemsize : Dtype → ℕ) (op : CommunicationOperation) : ℕ :=
  op.overlapShape.prod * itemsize op.sendShardMeta.dtype

def CommunicationOperation.recvBytes (itemsize : Dtype → ℕ) (op : CommunicationOperation) : ℕ :=
  op.overlapShape.prod * itemsize op.recvShardMeta.dtype

/-- The elements of whatever the two ranks exchange are as large in training as in inference. -/
def SameElementSizes (itemsize : Dtype → ℕ) (b : TransferPlanBuilder) (infer train : List ParameterMeta) (t r : ℕ) :
    Prop :=
  ∀ op ∈ pairOperations (plannedOperations b infer train none) t r,
    itemsize op.sendShardMeta.dtype = itemsize op.recvShardMeta.dtype

theorem ncclBuildRecvOps_targets (parameters : Dict String Parameter) (plan : TransferPlan) (useBatch : Bool)
    (memory : Memory α) (h : ∀ e ∈ visited plan.operations, ∃ p v, RecvSlice parameters e.2 p v) :
    ∃ posted, ncclBuildRecvOps parameters plan useBatch memory = .ok posted ∧
      List.Forall₂ (fun e p2p => p2p.op = .recv ∧ p2p.peer = e.1 ∧ ∃ p v, RecvSlice parameters e.2 p v ∧
        p2p.tensor.shape = v.shape ∧ p2p.tensor.dtype = v.dtype) (visited plan.operations) posted.p2pOpList := by
  have htarget : ∀ (v : Tensor) (m : Memory α), (recvTarget useBatch v m).1.shape = v.shape ∧
      (recvTarget useBatch v m).1.dtype = v.dtype := by
    intro v m
    unfold recvTarget
    split_ifs
    · exact m.contiguous_shape v
    · exact ⟨rfl, rfl⟩
  simp only [ncclBuildRecvOps, buildLoop_eq]
  apply emitAll_exists (emitRecv parameters useBatch) (fun done (s : RecvOps α) => List.Forall₂ _ done s.p2pOpList)
  · exact .nil
  · intro done e s he hs
    obtain ⟨p, v, hslice⟩ := h e he
    refine ⟨_, emitRecv_eq_ok.mpr ⟨p, v, hslice.parameter, hslice.index, rfl⟩, ?_⟩
    exact List.rel_append hs (.cons ⟨rfl, rfl, p, v, hslice, htarget v s.memory⟩ .nil)

section Planned

variable (itemsize : Dtype → ℕ) {b : TransferPlanBuilder} {infer train : List ParameterMeta}
  {parameters : ℕ → Dict String Parameter} (hmeta : CommonMetadata b infer train)

include hmeta

theorem sizes_eq_iff (t r : ℕ) :
    (pairOperations (plannedOperations b infer train none) t r).map (·.sendBytes itemsize) =
      (pairOperations (plannedOperations b infer train none) t r).map (·.recvBytes itemsize) ↔
    SameElementSizes itemsize b infer train t r := by
  rw [List.map_inj_left]
  refine forall₂_congr fun op hop => ?_
  have hpos := (planned_law hmeta (mem_pairOperations.mp hop).1).1.recv_fits.prod_bounds.1
  exact Nat.mul_right_inj hpos.ne'

variable (hheld : Held b infer train ShardTensor parameters)

include hheld

theorem sendSlice_sizes {op : CommunicationOperation} (hop : op ∈ plannedOperations b infer train none) {p : Parameter}
    {v : Tensor} (hslice : SendSlice (parameters op.sendRank) op p v) :
    v.shape = op.overlapShape ∧ v.dtype = op.sendShardMeta.dtype := by
  obtain ⟨p', hp, hshard⟩ := hheld.send hmeta hop
  obtain rfl := Option.some.inj (hp.symm.trans hslice.parameter)
  obtain ⟨v', hslice', hpart⟩ := (planned_law hmeta hop).1.sendSlice hp hshard.shape_eq
  obtain rfl := Except.ok.inj (hslice'.index.symm.trans hslice.index)
  exact ⟨hpart.shape_eq, hpart.dtype_eq.trans hshard.dtype_eq⟩

theorem recvSlice_sizes {op : CommunicationOperation} (hop : op ∈ plannedOperations b infer train none) {q : Parameter}
    {v : Tensor} (hslice : RecvSlice (parameters op.recvRank) op q v) :
    v.shape = op.overlapShape ∧ v.dtype = op.recvShardMeta.dtype := by
  obtain ⟨q', hq, hshard⟩ := hheld.recv hmeta hop
  obtain rfl := Option.some.inj (hq.symm.trans hslice.parameter)
  obtain ⟨v', hslice', hpart⟩ := (planned_law hmeta hop).1.recvSlice hq hshard.shape_eq
  obtain rfl := Except.ok.inj (hslice'.index.symm.trans hslice.index)
  exact ⟨hpart.shape_eq, hpart.dtype_eq.trans hshard.dtype_eq⟩

theorem sent_sizes {t : ℕ} (ht : b.inferWorldSize ≤ t) {plan : TransferPlan}
    (hplan : buildLocalTransferPlan b infer train t = .ok plan) {memory : Memory α} {sent : SendOps α}
    (h : SendsBuilt (parameters t) memory (visited plan.operations) sent) (r : ℕ) :
    wireSizes itemsize sent.p2pOpList .send r =
      (pairOperations (plannedOperations b infer train none) t r).map (·.sendBytes itemsize) := by
  have hfilter := forall₂_filter (fun e => e.1 = r) (fun p2p : P2POp => p2p.op = .send ∧ p2p.peer = r)
    (fun e p2p hs => by rw [hs.1, hs.2.1, and_iff_right rfl]) h.posted
  rw [filter_visited, List.forall₂_map_left_iff,
    getD_pairOperations (trainPlan_get? b infer train t r ht plan hplan)] at hfilter
  apply (map_eq_of_forall₂_mem hfilter _).symm
  rintro op hop p2p ⟨-, -, p, v, hslice, hcarries⟩
  obtain ⟨hplanned, rfl, -⟩ := mem_pairOperations.mp hop
  obtain ⟨hshape, hdtype⟩ := sendSlice_sizes hmeta hheld hplanned hslice
  rw [Tensor.numel, hcarries.shape_eq, hcarries.dtype_eq, hshape, hdtype]
  rfl

theorem received_sizes {r : ℕ} (hr : r < b.inferWorldSize) {plan : TransferPlan}
    (hplan : buildLocalTransferPlan b infer train r = .ok plan) {posted : List P2POp}
    (h : List.Forall₂ (fun e p2p => p2p.op = .recv ∧ p2p.peer = e.1 ∧ ∃ p v, RecvSlice (parameters r) e.2 p v ∧
      p2p.tensor.shape = v.shape ∧ p2p.tensor.dtype = v.dtype) (visited plan.operations) posted) (t : ℕ) :
    wireSizes itemsize posted .recv t =
      (pairOperations (plannedOperations b infer train none) t r).map (·.recvBytes itemsize) := by
  have hfilter := forall₂_filter (fun e => e.1 = t) (fun p2p : P2POp => p2p.op = .recv ∧ p2p.peer = t)
    (fun e p2p hs => by rw [hs.1, hs.2.1, and_iff_right rfl]) h
  rw [filter_visited, List.forall₂_map_left_iff,
    getD_pairOperations (inferPlan_get? b infer train t r hr plan hplan)] at hfilter
  apply (map_eq_of_forall₂_mem hfilter _).symm
  rintro op hop p2p ⟨-, -, q, v, hslice, hshape', hdtype'⟩
  obtain ⟨hplanned, -, rfl⟩ := mem_pairOperations.mp hop
  obtain ⟨hshape, hdtype⟩ := recvSlice_sizes hmeta hheld hplanned hslice
  rw [Tensor.numel, hshape', hdtype', hshape, hdtype]
  rfl

section Device

variable {t r : ℕ} {u : ColocateUpdate} (hdevice : ColocatedDevice b infer train parameters t r u)

include hdevice

theorem sendView_sizes {p : ℕ} {op : CommunicationOperation}
    (hop : op ∈ pairOperations (plannedOperations b infer train none) t p) :
    (u.sendView op).shape = op.overlapShape ∧ (u.sendView op).dtype = op.sendShardMeta.dtype := by
  obtain ⟨hplanned, rfl, -⟩ := mem_pairOperations.mp hop
  have hslice := planned_sendSlice hmeta (hheld.imp fun _ _ h => h.shape_eq) hplanned
  rw [← hdevice.send_parameters] at hslice
  obtain ⟨p, hview⟩ := u.canSend_iff.mpr hslice
  rw [hdevice.send_parameters] at hview
  exact sendSlice_sizes hmeta hheld hplanned hview

theorem recvView_sizes {t' : ℕ} {op : CommunicationOperation}
    (hop : op ∈ pairOperations (plannedOperations b infer train none) t' r) :
    (u.recvView op).numel * itemsize (u.recvView op).dtype = op.recvBytes itemsize := by
  obtain ⟨hplanned, -, rfl⟩ := mem_pairOperations.mp hop
  have hslice := planned_recvSlice hmeta (hheld.imp fun _ _ h => h.shape_eq) hplanned
  rw [← hdevice.recv_parameters] at hslice
  obtain ⟨q, hview⟩ := u.canRecv_iff.mpr hslice
  rw [hdevice.recv_parameters] at hview
  obtain ⟨hshape, hdtype⟩ := recvSlice_sizes hmeta hheld hplanned hview
  rw [Tensor.numel, hshape, hdtype]
  rfl

theorem phases_sent_sizes {cast : Dtype → Dtype → α → α} {m : Memory α} {phases : List (List BuiltOp) × Memory α}
    (h : preparePhases u cast m = .ok phases) {p : ℕ} (hp : p < u.worldSize) (hne : p ≠ r) :
    wireSizes itemsize (phases.1.flatten.map Prod.snd) .send p =
      (pairOperations (plannedOperations b infer train none) t p).map (·.sendBytes itemsize) := by
  have hrank := hdevice.planned.rank
  obtain ⟨⟨m', hsent⟩, -⟩ := phases_posts (hrank ▸ hdevice.in_group) h hp (hrank ▸ hne)
  rw [hdevice.sends_eq] at hsent
  rw [wireSizes, List.filter_map, List.map_map]
  apply (map_eq_of_forall₂_mem hsent _).symm
  intro op hop built hbuilt
  obtain ⟨hshape, hdtype⟩ := sendView_sizes hmeta hheld hdevice hop
  rw [Function.comp_apply, Tensor.numel, hbuilt.carries.shape_eq, hbuilt.carries.dtype_eq, hshape, hdtype]
  rfl

theorem phases_received_sizes {cast : Dtype → Dtype → α → α} {m : Memory α} {phases : List (List BuiltOp) × Memory α}
    (h : preparePhases u cast m = .ok phases) {t' p : ℕ} (hp : p < u.worldSize) (hne : p ≠ r)
    (hmapped : u.inferToTrain.get? p = some t') :
    wireSizes itemsize (phases.1.flatten.map Prod.snd) .recv p =
      (pairOperations (plannedOperations b infer train none) t' r).map (·.recvBytes itemsize) := by
  have hrank := hdevice.planned.rank
  obtain ⟨hvalid, -⟩ := preparePhases_mapped h
  obtain ⟨-, hreceived⟩ := phases_posts (hrank ▸ hdevice.in_group) h hp (hrank ▸ hne)
  rw [hdevice.fromPeer_eq hvalid hmapped hne] at hreceived
  rw [wireSizes, List.filter_map, List.map_map]
  simp only [Function.comp_def]
  rw [hreceived, List.map_map]
  exact List.map_congr_left (fun op hop => recvView_sizes itemsize hmeta hheld hdevice hop)

end Device

theorem handed_sizes {t r t' r' : ℕ} {u u' : ColocateUpdate} (hu : ColocatedDevice b infer train parameters t r u)
    (hu' : ColocatedDevice b infer train parameters t' r' u') (hsize : u.worldSize = u'.worldSize)
    {cast : Dtype → Dtype → α → α} {m m₁ m' m₁' : Memory α} {sends recvs sends' recvs' : ℕ → List CommunicationOperation}
    {handed handed' : Handed} (h : u.HandedFor cast m m₁ sends recvs handed) (hroute : u.Routed sends recvs)
    (h' : u'.HandedFor cast m' m₁' sends' recvs' handed') (hroute' : u'.Routed sends' recvs')
    (hsame : sends r' = recvs' r) (hpair : sends r' ⊆ pairOperations (plannedOperations b infer train none) t r') :
    wireSizes itemsize (u.posted handed) .send r' = wireSizes itemsize (u'.posted handed') .recv r := by
  have hsent : ((handed.sendOps.getD r' []).map Prod.snd).map (fun op => op.tensor.numel * itemsize op.tensor.dtype) =
      (sends r').map (·.recvBytes itemsize) := by
    rw [List.map_map]
    apply (map_eq_of_forall₂_mem (h.send r') _).symm
    intro op hop built hbuilt
    rw [Function.comp_apply, hbuilt.bytes itemsize, wireBytes, Tensor.numel,
      (sendView_sizes hmeta hheld hu (hpair hop)).1]
    rfl
  have hreceived : ((handed'.recvOps.getD r []).map Prod.snd).map
      (fun op => op.tensor.numel * itemsize op.tensor.dtype) = (recvs' r).map (·.recvBytes itemsize) := by
    rw [h'.recv, List.map_map, List.map_map]
    exact List.map_congr_left (fun op hop => recvView_sizes itemsize hmeta hheld hu' (hpair (hsame ▸ hop)))
  rw [wireSizes, wireSizes, posted_filter u (h.addressed hroute), posted_filter u' (h'.addressed hroute'), map_again,
    map_again, walkSlots_send, walkSlots_recv, hu.planned.rank, hu'.planned.rank, hsize]
  exact congrArg _ (hsent.trans ((congrArg _ hsame).trans hreceived.symm))

end Planned

theorem sameElementSizes_of_checked (itemsize : Dtype → ℕ) {b : TransferPlanBuilder} {infer train : List ParameterMeta}
    (hmeta : CommonMetadata b infer train) {strictKeyMatch : Bool}
    (hcheck : checkTrainInferParamsMeta train infer true strictKeyMatch = .ok ())
    (hdtype : ∀ m, m ∈ infer ∨ m ∈ train → ∀ r ∈ m.replicas, ∀ s ∈ r.shards, s.dtype = m.dtype) (t r : ℕ) :
    SameElementSizes itemsize b infer train t r := by
  obtain ⟨-, hcompatible⟩ := (checkTrainInferParamsMeta_ok_iff
    { b with strictParamKeyMatch := strictKeyMatch } infer train).mp hcheck
  intro op hop
  obtain ⟨-, -, -, name, im, tm, i, e, replica, training, hi, ht, ha⟩ :=
    planned_law hmeta (mem_pairOperations.mp hop).1
  have hreplica : replica ∈ im.replicas :=
    ((mem_inferenceReplicas b im e replica).mp (List.mem_of_getElem? ha.replica)).2
  have hsend := hdtype tm (.inr (mem_metaDict ht).1) training (List.mem_of_getElem? ha.assignment) _ ha.send_shard
  have hrecv := hdtype im (.inl (mem_metaDict hi).1) replica hreplica _ ha.recv_shard
  rw [hsend, hrecv, (hcompatible name im tm hi ht).dtype]

/-- Wherever the sender casts to the dtype of the receiver, both post as many bytes. Elsewhere they
do if the elements are equally large, which a check that raises sees to. -/
theorem wireSizes_iff (itemsize : Dtype → ℕ) (cast : Dtype → Dtype → α → α) {b : TransferPlanBuilder}
    {infer train : List ParameterMeta} {parameters : ℕ → Dict String Parameter}
    (hmeta : CommonMetadata b infer train) (hheld : Held b infer train ShardTensor parameters) :
    (∀ strictKeyMatch, checkTrainInferParamsMeta train infer true strictKeyMatch = .ok () →
      (∀ m, m ∈ infer ∨ m ∈ train → ∀ r ∈ m.replicas, ∀ s ∈ r.shards, s.dtype = m.dtype) →
        ∀ t r, SameElementSizes itemsize b infer train t r) ∧
    (∀ t r sendPlan recvPlan, b.inferWorldSize ≤ t → r < b.inferWorldSize →
      buildLocalTransferPlan b infer train t = .ok sendPlan → buildLocalTransferPlan b infer train r = .ok recvPlan →
      ∀ useBatch (memory memory' : Memory α), ∃ sent posted,
        ncclBuildSendOps (parameters t) sendPlan (-1) useBatch memory = .ok sent ∧
        ncclBuildRecvOps (parameters r) recvPlan useBatch memory' = .ok posted ∧
        (wireSizes itemsize sent.p2pOpList .send r = wireSizes itemsize posted.p2pOpList .recv t ↔
          SameElementSizes itemsize b infer train t r)) ∧
    ∀ t r u t' r' u', ColocatedDevice b infer train parameters t r u →
      ColocatedDevice b infer train parameters t' r' u' → u.worldSize = u'.worldSize → r ≠ r' →
      u'.inferToTrain.get? r = some t → ∀ memory memory' : Memory α,
      (∀ phases phases', preparePhases u cast memory = .ok phases → preparePhases u' cast memory' = .ok phases' →
        (wireSizes itemsize (phases.1.flatten.map Prod.snd) .send r' =
            wireSizes itemsize (phases'.1.flatten.map Prod.snd) .recv r ↔
          SameElementSizes itemsize b infer train t r')) ∧
      (∀ handed handed', u.oneShotHandover cast memory = .ok handed → u'.oneShotHandover cast memory' = .ok handed' →
        wireSizes itemsize (u.posted handed.1) .send r' = wireSizes itemsize (u'.posted handed'.1) .recv r) ∧
      ∀ stepSize chunkIdx inbox outbox inbox' outbox' handed handed',
        u.chunkHandover cast stepSize chunkIdx ⟨memory, inbox, outbox⟩ = .ok handed →
        u'.chunkHandover cast stepSize chunkIdx ⟨memory', inbox', outbox'⟩ = .ok handed' →
          wireSizes itemsize (u.posted handed) .send r' = wireSizes itemsize (u'.posted handed') .recv r := by
  have hshape : Held b infer train HasShape parameters := hheld.imp fun _ _ h => h.shape_eq
  refine ⟨?_, ?_, ?_⟩
  · intro strictKeyMatch hcheck hdtype
    exact sameElementSizes_of_checked itemsize hmeta hcheck hdtype
  · intro t r sendPlan recvPlan ht hr hsend hrecv useBatch memory memory'
    obtain ⟨sent, hsent, hspec⟩ := ncclBuildSendOps_spec (parameters t) sendPlan useBatch memory
      (fun _ he => sendSlice_of_visited hmeta hshape ht hsend he)
    obtain ⟨posted, hposted, htargets⟩ := ncclBuildRecvOps_targets (parameters r) recvPlan useBatch memory'
      (fun _ he => recvSlice_of_visited hmeta hshape hr hrecv he)
    refine ⟨sent, posted, hsent, hposted, ?_⟩
    rw [sent_sizes itemsize hmeta hheld ht hsend hspec, received_sizes itemsize hmeta hheld hr hrecv htargets]
    exact sizes_eq_iff itemsize hmeta t r
  · intro t r u t' r' u' hu hu' hsize hne hmapped memory memory'
    have hslices := hu.slices hmeta hshape
    have hslices' := hu'.slices hmeta hshape
    have hpaired := (hu.planned.selfOps_eq hu.train_rank).1
    have hpaired' := (hu'.planned.selfOps_eq hu'.train_rank).1
    refine ⟨?_, ?_, ?_⟩
    · intro phases phases' hphases hphases'
      rw [phases_sent_sizes itemsize hmeta hheld hu hphases (hsize ▸ hu'.in_group) hne.symm,
        phases_received_sizes itemsize hmeta hheld hu' hphases' (hsize ▸ hu.in_group) hne hmapped]
      exact sizes_eq_iff itemsize hmeta t r'
    · intro handed handed' hhanded hhanded'
      have hs := hslices.sliceable_of_oneShot hhanded
      have hs' := hslices'.sliceable_of_oneShot hhanded'
      obtain ⟨-, m, hspec⟩ := oneShotHandover_spec hs hhanded
      obtain ⟨hvalid, m', hspec'⟩ := oneShotHandover_spec hs' hhanded'
      have hto := hu.toPeer_eq hne.symm
      apply handed_sizes itemsize hmeta hheld hu hu' hsize hspec (routed hs hu.sendKeyed) hspec'
        (routed hs' hu'.sendKeyed)
      · rw [hto, hu'.fromPeer_eq hvalid hmapped hne]
      · exact hto ▸ List.Subset.refl _
    · intro stepSize chunkIdx inbox outbox inbox' outbox' handed handed' hhanded hhanded'
      obtain ⟨c, hc, -⟩ := Except.bind_eq_ok.mp hhanded
      obtain ⟨c', hc', -⟩ := Except.bind_eq_ok.mp hhanded'
      have hs := hslices.sliceable_of_start hc
      have hs' := hslices'.sliceable_of_start hc'
      obtain ⟨m, hspec⟩ := chunkHandover_spec hs hu.sendKeyed hpaired hhanded
      obtain ⟨m', hspec'⟩ := chunkHandover_spec hs' hu'.sendKeyed hpaired' hhanded'
      have hto := hu.toPeer_eq hne.symm
      apply handed_sizes itemsize hmeta hheld hu hu' hsize hspec (routed_chunk hs hu.sendKeyed stepSize chunkIdx) hspec'
        (routed_chunk hs' hu'.sendKeyed stepSize chunkIdx)
      · rw [hto, hu'.fromPeer_eq (startChunks_spec hs' hpaired' hc').1 hmapped hne]
      · intro op hop
        exact hto ▸ mem_of_mem_chunk hop

theorem wireSizes_columns :
    checkTrainInferParamsMeta [columnTrain] [columnInfer .bfloat16] false false = .ok () ∧
    Held columnBuilder [columnInfer .bfloat16] [columnTrain] ShardTensor (columnParameters .bfloat16) ∧
    (∃ sent posted,
      ncclBuildSendOps (columnParameters .bfloat16 2) (columnPlan .bfloat16 2) (-1) true (columnMemory 2) = .ok sent ∧
      ncclBuildRecvOps (columnParameters .bfloat16 0) (columnPlan .bfloat16 0) true (columnMemory 0) = .ok posted ∧
      wireSizes Dtype.itemsize sent.p2pOpList .send 0 = [8] ∧
      wireSizes Dtype.itemsize posted.p2pOpList .recv 2 = [4]) ∧
    ∃ phases phases',
      preparePhases (columnUpdate .bfloat16 0) (fun _ _ a => a) (columnMemory 0) = .ok phases ∧
      preparePhases (columnUpdate .bfloat16 1) (fun _ _ a => a) (columnMemory 1) = .ok phases' ∧
      wireSizes Dtype.itemsize (phases.1.flatten.map Prod.snd) .send 1 = [8] ∧
      wireSizes Dtype.itemsize (phases'.1.flatten.map Prod.snd) .recv 0 = [4] := by
  refine ⟨by decide, column_held ⟨rfl, rfl⟩ (fun k _ => ⟨rfl, rfl⟩), ⟨_, _, rfl, rfl, ?_, ?_⟩, _, _, rfl, rfl, ?_, ?_⟩
  all_goals decide

theorem wireSizes_iff_columns :
    (∃ sent posted,
      ncclBuildSendOps (columnParameters .bfloat16 2) (columnPlan .bfloat16 2) (-1) true (columnMemory 2) = .ok sent ∧
      ncclBuildRecvOps (columnParameters .bfloat16 0) (columnPlan .bfloat16 0) true (columnMemory 0) = .ok posted ∧
      (wireSizes Dtype.itemsize sent.p2pOpList .send 0 = wireSizes Dtype.itemsize posted.p2pOpList .recv 2 ↔
        SameElementSizes Dtype.itemsize columnBuilder [columnInfer .bfloat16] [columnTrain] 2 0)) ∧
    ∃ handed handed',
      (columnUpdate .bfloat16 0).oneShotHandover (fun _ _ a => a) (columnMemory 0) = .ok handed ∧
      (columnUpdate .bfloat16 1).oneShotHandover (fun _ _ a => a) (columnMemory 1) = .ok handed' ∧
      wireSizes Dtype.itemsize ((columnUpdate .bfloat16 0).posted handed.1) .send 1 =
        wireSizes Dtype.itemsize ((columnUpdate .bfloat16 1).posted handed'.1) .recv 0 := by
  obtain ⟨-, hseparate, hcolocated⟩ := wireSizes_iff Dtype.itemsize (fun _ _ (a : ℕ) => a)
    (column_commonMetadata (.inr rfl)) (column_held ⟨rfl, rfl⟩ (fun k _ => ⟨rfl, rfl⟩))
  refine ⟨hseparate 2 0 _ _ (by decide) (by decide) (columnPlan_eq (.inr rfl) (by decide))
    (columnPlan_eq (.inr rfl) (by decide)) true (columnMemory 2) (columnMemory 0), _, _, rfl, rfl, ?_⟩
  exact (hcolocated 2 0 _ 3 1 _ (columnUpdate_device (.inr rfl) (a := 0) (by decide))
    (columnUpdate_device (.inr rfl) (a := 1) (by decide)) rfl (by decide) rfl (columnMemory 0)
    (columnMemory 1)).2.1 _ _ rfl rfl

end Awex
