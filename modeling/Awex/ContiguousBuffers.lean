import Awex.ColocatedDevices
import Awex.CopyBack
import Mathlib.Tactic.IntervalCases

namespace Awex

open ColocateUpdate NcclColocateTransport

variable {α : Type}

def AllContiguous (ops : List P2POp) : Prop := ∀ op ∈ ops, op.tensor.IsContiguous

/-- A rank that receives in one batch receives every slice of its plan in the slice itself, or in a
staged tensor that is copied into it. -/
structure BatchedRecvs (cast : Dtype → Dtype → α → α) (parameters : Dict String Parameter) (plan : TransferPlan)
    (posted : RecvOps α) : Prop where
  contiguous : AllContiguous posted.p2pOpList
  lands : ∀ e ∈ plan.operations.entries, ∀ op ∈ e.2, ∃ p v target, RecvSlice parameters op p v ∧
    ⟨.recv, target, e.1⟩ ∈ posted.p2pOpList ∧ (v.IsContiguous → target = v) ∧
      (¬ v.IsContiguous → ∀ received, CopiedBack cast posted.nonContiguousTensorPairs received v target)
  finishes : ∀ received, ∃ final,
    syncNonContiguousTensorPairs cast posted.nonContiguousTensorPairs received = .ok final

/-- A rank that receives one by one does so in a contiguous tensor every time, and has the message
in the slice before it goes on. -/
structure OneByOneRecvs (cast : Dtype → Dtype → α → α) (parameters : Dict String Parameter) (plan : TransferPlan)
    (ops : List P2POp) : Prop where
  lands : ∀ e ∈ plan.operations.entries, ∀ op ∈ e.2, ∃ p v, RecvSlice parameters op p v ∧ ⟨.recv, v, e.1⟩ ∈ ops
  contiguous : ∀ op ∈ ops, ∀ m : Memory α, (stageRecv op m).1.tensor.IsContiguous
  received : ∀ op ∈ ops, ∀ (l : Link α) msg rest, l.inbox op.peer = msg :: rest →
    Accepts (stageRecv op l.memory).1.tensor msg → ∃ l', recvOne cast l op = .ok l' ∧
      l'.memory.read op.tensor = msg.data

/-- Whatever a device receives from the peers goes to consecutive elements of a shard. -/
def ColocateUpdate.ReceivesConsecutive (u : ColocateUpdate) (peers : ℕ → Prop) : Prop :=
  ∀ e ∈ u.recvTransferPlan.operations.entries, ∀ p, u.trainToInfer.get? e.1 = some p → p ≠ u.transferRank → peers p →
    ∀ op ∈ e.2, Strided.Consecutive op.overlapShape op.recvShardMeta.shape

section Planned

variable {b : TransferPlanBuilder} {infer train : List ParameterMeta} {parameters : ℕ → Dict String Parameter}
  (hmeta : CommonMetadata b infer train) (hheld : Held b infer train ContiguousShard parameters)

include hmeta hheld

theorem planned_recvContiguous {op : CommunicationOperation} (hop : op ∈ plannedOperations b infer train none) {q : Parameter}
    {v : Tensor} (hslice : RecvSlice (parameters op.recvRank) op q v) :
    v.addresses.Nodup ∧ (v.IsContiguous ↔ Strided.Consecutive op.overlapShape op.recvShardMeta.shape) := by
  have hsame := (planned_law hmeta hop).1
  obtain ⟨q', hq, hshard⟩ := hheld.recv hmeta hop
  obtain rfl := Option.some.inj (hq.symm.trans hslice.parameter)
  exact ⟨hsame.recv_addresses_nodup hshard hslice.index, hsame.recv_contiguous_iff hshard hslice.index⟩

theorem sends_contiguous {t : ℕ} (ht : b.inferWorldSize ≤ t) {plan : TransferPlan}
    (hplan : buildLocalTransferPlan b infer train t = .ok plan) (useBatch : Bool) (memory : Memory α) :
    ∃ sent, ncclBuildSendOps (parameters t) plan (-1) useBatch memory = .ok sent ∧ AllContiguous sent.p2pOpList := by
  obtain ⟨sent, hsent, hspec⟩ := ncclBuildSendOps_spec (parameters t) plan useBatch memory
    (fun _ he => sendSlice_of_visited hmeta (hheld.imp fun _ _ h => h.shape_eq) ht hplan he)
  refine ⟨sent, hsent, fun op hop => ?_⟩
  obtain ⟨e, -, -, -, p, v, -, hcarries⟩ := exists_of_forall₂_mem_right hspec.posted hop
  exact hcarries.contiguous

section Infer

variable {r : ℕ} (hr : r < b.inferWorldSize) {plan : TransferPlan}
  (hplan : buildLocalTransferPlan b infer train r = .ok plan)

include hr hplan

theorem recvSlice_nodup {e : ℕ × CommunicationOperation} (he : e ∈ visited plan.operations) {p : Parameter}
    {v : Tensor} (hslice : RecvSlice (parameters r) e.2 p v) : v.addresses.Nodup := by
  obtain ⟨entry, hentry, -, hop⟩ := mem_visited_entries.mp he
  obtain ⟨hplanned, -, rfl⟩ := mem_inferPlan hr hplan hentry hop
  exact (planned_recvContiguous hmeta hheld hplanned hslice).1

theorem batched_recvs (cast : Dtype → Dtype → α → α) (memory : Memory α) :
    ∃ posted, ncclBuildRecvOps (parameters r) plan true memory = .ok posted ∧
      BatchedRecvs cast (parameters r) plan posted := by
  obtain ⟨posted, landings, hposted, hspec⟩ := ncclBuildRecvOps_spec (parameters r) plan memory
    (fun _ he => recvSlice_of_visited hmeta (hheld.imp fun _ _ h => h.shape_eq) hr hplan he)
  refine ⟨posted, hposted, ⟨?_, ?_, ?_⟩⟩
  · intro op hop
    rw [hspec.posted] at hop
    obtain ⟨l, hl, rfl⟩ := List.mem_map.mp hop
    exact (hspec.ok l hl).contiguous
  · intro e he op hop
    have hvisited : (e.1, op) ∈ visited plan.operations := mem_visited_entries.mpr ⟨e, he, rfl, hop⟩
    have hentry := hvisited
    rw [← hspec.entries] at hentry
    obtain ⟨l, hl, heq⟩ := List.mem_map.mp hentry
    obtain ⟨hpeer, rfl⟩ := Prod.mk.inj heq
    obtain ⟨p, hslice⟩ := (hspec.ok l hl).slice
    refine ⟨p, l.view, l.target, hslice, ?_, (hspec.ok l hl).direct, fun hc received => ?_⟩
    · rw [hspec.posted, ← hpeer]
      exact List.mem_map_of_mem hl
    · exact hspec.copiedBack cast hl hc (recvSlice_nodup hmeta hheld hr hplan hvisited hslice) received
  · intro received
    rw [hspec.pairs]
    exact ⟨_, syncNonContiguousTensorPairs_eq cast landings hspec.ok received _ (fun _ _ _ => rfl)⟩

theorem one_by_one_recvs (cast : Dtype → Dtype → α → α) (memory : Memory α) :
    ∃ posted, ncclBuildRecvOps (parameters r) plan false memory = .ok posted ∧
      OneByOneRecvs cast (parameters r) plan (sendRecvOneByOne posted.p2pOpList posted.recvTrajList) := by
  obtain ⟨posted, hposted, hslices⟩ := ncclBuildRecvOps_slices (parameters r) plan memory
    (fun _ he => recvSlice_of_visited hmeta (hheld.imp fun _ _ h => h.shape_eq) hr hplan he)
  refine ⟨posted, hposted, ⟨?_, fun op _ m => stageRecv_contiguous op m, ?_⟩⟩
  · intro e he op hop
    have hvisited : (e.1, op) ∈ visited plan.operations := mem_visited_entries.mpr ⟨e, he, rfl, hop⟩
    obtain ⟨⟨_, v, _⟩, hmem, rfl, rfl, p, hslice⟩ := exists_of_forall₂_mem hslices hvisited
    exact ⟨p, v, hslice, hmem⟩
  · intro op hop l msg rest hq ha
    obtain ⟨e, he, hrecv, -, p, hslice⟩ := exists_of_forall₂_mem_right hslices hop
    exact recvOne_read cast hrecv (recvSlice_nodup hmeta hheld hr hplan he hslice) hq ha

end Infer

section Device

variable {t r : ℕ} {u : ColocateUpdate} (hdevice : ColocatedDevice b infer train parameters t r u)

include hdevice

theorem received_contiguous_iff (hvalid : validateRankMappings u.trainToInfer u.inferToTrain = .ok ())
    (peers : ℕ → Prop) : (∀ p, peers p → ∀ op ∈ u.fromPeer p, (u.recvView op).IsContiguous) ↔
      u.ReceivesConsecutive peers := by
  have hslices := hdevice.slices hmeta (hheld.imp fun _ _ h => h.shape_eq)
  have hview : ∀ e ∈ u.recvTransferPlan.operations.entries, ∀ op ∈ e.2, ((u.recvView op).IsContiguous ↔
      Strided.Consecutive op.overlapShape op.recvShardMeta.shape) := by
    intro e he op hop
    obtain ⟨p, hslice⟩ := hslices.recv e he op hop
    rw [hdevice.recv_parameters] at hslice
    obtain ⟨hplanned, -, rfl⟩ := mem_inferPlan hdevice.infer_rank hdevice.planned.recv_plan he hop
    exact (planned_recvContiguous hmeta hheld hplanned hslice).2
  constructor
  · intro h e he p hp hne hpeer op hop
    exact (hview e he op hop).mp (h p hpeer op ((mem_fromPeer hvalid).mpr ⟨hne, e, he, hp, hop⟩))
  · intro h p hpeer op hop
    obtain ⟨hne, e, he, hp, hop⟩ := (mem_fromPeer hvalid).mp hop
    exact (hview e he op hop).mpr (h e he p hp hne hpeer op hop)

end Device

end Planned

section Stream

variable {u : ColocateUpdate} {cast : Dtype → Dtype → α → α}

theorem posted_contiguous_iff {m₀ m : Memory α} {sends recvs : ℕ → List CommunicationOperation} {handed : Handed}
    (h : u.HandedFor cast m₀ m sends recvs handed) (hr : u.Routed sends recvs) :
    AllContiguous (u.posted handed) ↔ ∀ p, 0 < timesWalked u.worldSize p u.transferRank →
      ∀ op ∈ recvs p, (u.recvView op).IsContiguous := by
  have hreceives : ∀ p, ∀ op, (u.recvBuilt p op).2 ∈ u.posted handed ↔
      (u.recvBuilt p op).2 ∈ (receives (u.posted handed)).filter (fun q => q.peer = p) := by
    intro p op
    simp [receives, recvBuilt]
  constructor
  · intro hall p hp op hop
    refine hall (u.recvBuilt p op).2 ((hreceives p op).mpr ?_)
    rw [h.receives_eq hr, mem_again]
    exact ⟨hp, List.mem_map_of_mem hop⟩
  · intro hall op hop
    cases hdir : op.op with
    | send => exact ((h.postOk hr op hop).send hdir).1
    | recv =>
      have hmem : op ∈ (receives (u.posted handed)).filter (fun q => q.peer = op.peer) := by
        simp [receives, hop, hdir]
      rw [h.receives_eq hr, mem_again] at hmem
      obtain ⟨planned, hplanned, heq⟩ := List.mem_map.mp hmem.2
      exact heq ▸ hall op.peer hmem.1 planned hplanned

theorem chunks_contiguous_iff (hs : u.Sliceable) (hk : u.SendKeyed) (hp : u.SelfPaired) {m : Memory α}
    {c : ChunkStart α} (hc : u.startChunks cast m = .ok c) {stepSize n : ℕ}
    (hcover : ∀ p, (u.fromPeer p).length ≤ n * stepSize) :
    (∀ inbox outbox, ∀ chunkIdx < n, ∀ handed,
        u.chunkHandover cast stepSize chunkIdx ⟨m, inbox, outbox⟩ = .ok handed → AllContiguous (u.posted handed)) ↔
      ∀ p, 0 < timesWalked u.worldSize p u.transferRank → ∀ op ∈ u.fromPeer p, (u.recvView op).IsContiguous := by
  have hchunk : ∀ {chunkIdx : ℕ} {l : Link α} {handed : Handed},
      u.chunkHandover cast stepSize chunkIdx l = .ok handed → (AllContiguous (u.posted handed) ↔
        ∀ p, 0 < timesWalked u.worldSize p u.transferRank →
          ∀ op ∈ chunk stepSize chunkIdx (u.fromPeer p), (u.recvView op).IsContiguous) := by
    intro chunkIdx l handed hhanded
    obtain ⟨m', hspec⟩ := chunkHandover_spec hs hk hp hhanded
    exact posted_contiguous_iff hspec (routed_chunk hs hk stepSize chunkIdx)
  constructor
  · intro hall p hpos op hop
    obtain ⟨k, hkn, hop⟩ := (mem_chunk_iff (hcover p)).mpr hop
    -- chunk `k` is reached, since all that is received before it is contiguous as well
    induction k using Nat.strong_induction_on generalizing p op with
    | _ k ih =>
      obtain ⟨inbox, handed, hhanded⟩ := chunkHandover_exists hs hk hp hc stepSize k
        (fun j hj q hq op' hop' => ih j hj q hq op' (mem_of_mem_chunk hop') (hj.trans hkn) hop')
      exact (hchunk hhanded).mp (hall inbox _ k hkn handed hhanded) p hpos op hop
  · intro hall inbox outbox k hkn handed hhanded
    exact (hchunk hhanded).mpr (fun p hpos op hop => hall p hpos op (mem_of_mem_chunk hop))

end Stream

/-- In separate mode slices are staged and copied back where they have to be. The colocated
transports post them as they are, and that is right only for consecutive elements. -/
theorem contiguousBuffers_iff (cast : Dtype → Dtype → α → α) {b : TransferPlanBuilder}
    {infer train : List ParameterMeta} {parameters : ℕ → Dict String Parameter}
    (hmeta : CommonMetadata b infer train) (hheld : Held b infer train ContiguousShard parameters) :
    (∀ t plan, b.inferWorldSize ≤ t → buildLocalTransferPlan b infer train t = .ok plan →
      ∀ useBatch (memory : Memory α), ∃ sent,
        ncclBuildSendOps (parameters t) plan (-1) useBatch memory = .ok sent ∧ AllContiguous sent.p2pOpList) ∧
    (∀ r plan, r < b.inferWorldSize → buildLocalTransferPlan b infer train r = .ok plan → ∀ memory : Memory α,
      (∃ posted, ncclBuildRecvOps (parameters r) plan true memory = .ok posted ∧
        BatchedRecvs cast (parameters r) plan posted) ∧
      ∃ posted, ncclBuildRecvOps (parameters r) plan false memory = .ok posted ∧
        OneByOneRecvs cast (parameters r) plan (sendRecvOneByOne posted.p2pOpList posted.recvTrajList)) ∧
    ∀ t r u, ColocatedDevice b infer train parameters t r u → ∀ memory : Memory α,
      (∀ phases, preparePhases u cast memory = .ok phases →
        ((∀ ops ∈ phases.1, ∀ built ∈ ops, built.2.tensor.IsContiguous) ↔
          u.ReceivesConsecutive (· < u.worldSize))) ∧
      (∀ handed, u.oneShotHandover cast memory = .ok handed →
        (AllContiguous (u.posted handed.1) ↔
          u.ReceivesConsecutive (fun p => 0 < timesWalked u.worldSize p u.transferRank))) ∧
      ∀ stepSize n, 1 ≤ stepSize → localChunks stepSize u.sendLists u.recvLists ≤ n →
        ∀ c, u.startChunks cast memory = .ok c →
          ((∀ inbox outbox, ∀ chunkIdx < n, ∀ handed,
              u.chunkHandover cast stepSize chunkIdx ⟨memory, inbox, outbox⟩ = .ok handed →
                AllContiguous (u.posted handed)) ↔
            u.ReceivesConsecutive (fun p => 0 < timesWalked u.worldSize p u.transferRank)) := by
  refine ⟨?_, ?_, ?_⟩
  · intro t plan ht hplan useBatch memory
    exact sends_contiguous hmeta hheld ht hplan useBatch memory
  · intro r plan hr hplan memory
    exact ⟨batched_recvs hmeta hheld hr hplan cast memory, one_by_one_recvs hmeta hheld hr hplan cast memory⟩
  · intro t r u hdevice memory
    have hslices := hdevice.slices hmeta (hheld.imp fun _ _ h => h.shape_eq)
    have hkeyed := hdevice.sendKeyed
    have hpaired := (hdevice.planned.selfOps_eq hdevice.train_rank).1
    refine ⟨?_, ?_, ?_⟩
    · intro phases hphases
      have hgroup : u.transferRank < u.worldSize := hdevice.planned.rank ▸ hdevice.in_group
      rw [phases_contiguous_iff hgroup hphases]
      exact received_contiguous_iff hmeta hheld hdevice (preparePhases_mapped hphases).1 _
    · intro handed hhanded
      have hs := hslices.sliceable_of_oneShot hhanded
      obtain ⟨hvalid, m', hspec⟩ := oneShotHandover_spec hs hhanded
      rw [posted_contiguous_iff hspec (routed hs hkeyed)]
      exact received_contiguous_iff hmeta hheld hdevice hvalid _
    · intro stepSize n hstep hn c hc
      have hs := hslices.sliceable_of_start hc
      have hcover : ∀ p, (u.fromPeer p).length ≤ n * stepSize := fun p =>
        (length_le_localChunks hstep u.sendLists u.recvLists p).2.trans (Nat.mul_le_mul_right _ hn)
      rw [chunks_contiguous_iff hs hkeyed hpaired hc hcover]
      exact received_contiguous_iff hmeta hheld hdevice (startChunks_spec hs hpaired hc).1 _

def columnShard (dtype : Dtype) (rank offset width : ℕ) : ParameterShardMeta :=
  ⟨0, 0, 0, 0, 0, rank, 2, 0, "w", [2, width], 2 * width, dtype, [0, offset], .noSharding, 1, 1⟩

def columnMeta (dtype : Dtype) (shards : List ParameterShardMeta) : ParameterMeta :=
  ⟨"w", 4, [2, 2], dtype, shards, [⟨shards⟩]⟩

def columnTrain : ParameterMeta := columnMeta .float32 [columnShard .float32 0 0 1, columnShard .float32 1 1 1]

def columnInfer (dtype : Dtype) : ParameterMeta := columnMeta dtype [columnShard dtype 0 0 2]

/-- Two engines of one rank each have the whole matrix, and two training ranks a column each. -/
def columnBuilder : TransferPlanBuilder := ⟨2, 2, 2, false, Nat.two_pos⟩

def columnPlan (dtype : Dtype) (transferRank : ℕ) : TransferPlan :=
  match buildLocalTransferPlan columnBuilder [columnInfer dtype] [columnTrain] transferRank with
  | .ok plan => plan
  | .error _ => ⟨.empty⟩

def columnParameters (dtype : Dtype) (transferRank : ℕ) : Dict String Parameter :=
  Dict.ofList [("w", if transferRank < 2 then ⟨0, 0, [⟨2, 2⟩, ⟨2, 1⟩], dtype⟩
    else ⟨0, 0, [⟨2, 1⟩, ⟨1, 1⟩], .float32⟩)]

/-- Device `a` is inference rank `a` and training rank `2 + a`. -/
def columnUpdate (dtype : Dtype) (a : ℕ) : ColocateUpdate where
  sendTransferPlan := columnPlan dtype (2 + a)
  recvTransferPlan := columnPlan dtype a
  trainToInfer := Dict.ofList [(2, 0), (3, 1)]
  inferToTrain := Dict.ofList [(0, 2), (1, 3)]
  transferRank := a
  worldSize := 2
  sendParameters := columnParameters dtype (2 + a)
  recvParameters := columnParameters dtype a

def columnMemory (transferRank : ℕ) : Memory ℕ := ⟨fun a => 10 * transferRank + a.2, 0⟩

section Columns

variable {dtype : Dtype} (hdtype : dtype = .float32 ∨ dtype = .bfloat16)

include hdtype

theorem columnPlan_eq {g : ℕ} (hg : g < 4) :
    buildLocalTransferPlan columnBuilder [columnInfer dtype] [columnTrain] g = .ok (columnPlan dtype g) := by
  rcases hdtype with rfl | rfl <;> interval_cases g <;> rfl

theorem column_commonMetadata : CommonMetadata columnBuilder [columnInfer dtype] [columnTrain] := by
  refine commonMetadata_single rfl ?_
  rcases hdtype with rfl | rfl
  all_goals
    refine ⟨by decide, by decide, by decide, ?_, by decide, ?_, by decide, by decide⟩
    · simp only [columnTrain, columnMeta, List.mem_singleton, forall_eq]
      exact Box.tiles_of_indices _ _ (by decide) (by decide)
    · simp only [columnInfer, columnMeta, List.mem_singleton, forall_eq]
      exact Box.inside_of_indices _ _ (by decide)

omit hdtype in
theorem column_held {reported : ParameterShardMeta → Parameter → Prop}
    (hinfer : reported (columnShard dtype 0 0 2) ⟨0, 0, [⟨2, 2⟩, ⟨2, 1⟩], dtype⟩)
    (htrain : ∀ k < 2, reported (columnShard .float32 k k 1) ⟨0, 0, [⟨2, 1⟩, ⟨1, 1⟩], .float32⟩) :
    Held columnBuilder [columnInfer dtype] [columnTrain] reported (columnParameters dtype) := by
  constructor
  · intro name tm ht r hr s hs
    obtain ⟨-, rfl⟩ := of_metaDict_singleton ht
    obtain rfl := List.mem_singleton.mp hr
    simp only [List.mem_cons, List.not_mem_nil, or_false] at hs
    rcases hs with rfl | rfl
    · exact ⟨_, rfl, htrain 0 (by decide)⟩
    · exact ⟨_, rfl, htrain 1 (by decide)⟩
  · intro name im hi e he r hr s hs
    obtain ⟨-, rfl⟩ := of_metaDict_singleton hi
    obtain rfl := List.mem_singleton.mp hr
    obtain rfl := List.mem_singleton.mp hs
    have he2 : e < 2 := he
    exact ⟨_, by interval_cases e <;> rfl, hinfer⟩

omit hdtype in
theorem column_contiguous : Held columnBuilder [columnInfer dtype] [columnTrain] ContiguousShard
    (columnParameters dtype) := by
  refine column_held ⟨rfl, ?_⟩ (fun k _ => ⟨rfl, ?_⟩)
  · change Strided.Dense [⟨2, 2⟩, ⟨2, 1⟩]
    decide
  · change Strided.Dense [⟨2, 1⟩, ⟨1, 1⟩]
    decide

theorem columnUpdate_device {a : ℕ} (ha : a < 2) : ColocatedDevice columnBuilder [columnInfer dtype] [columnTrain]
    (columnParameters dtype) (2 + a) a (columnUpdate dtype a) where
  planned := by
    refine ⟨columnPlan_eq hdtype (by omega), columnPlan_eq hdtype (by omega), rfl, ?_, ?_⟩
    · interval_cases a <;> rfl
    · intro k q h
      have hk := Dict.mem_of_get?_ofList _ _ _ h
      simp at hk
      have hworld : columnBuilder.inferWorldSize = 2 := rfl
      omega
  train_rank := Nat.le_add_right 2 a
  infer_rank := ha
  in_group := ha
  send_parameters := rfl
  recv_parameters := rfl

end Columns

theorem contiguousBuffers_columns :
    Held columnBuilder [columnInfer .float32] [columnTrain] ContiguousShard (columnParameters .float32) ∧
    ColocatedDevice columnBuilder [columnInfer .float32] [columnTrain] (columnParameters .float32) 2 0
      (columnUpdate .float32 0) ∧
    (∃ phases, preparePhases (columnUpdate .float32 0) (fun _ _ a => a) (columnMemory 0) = .ok phases ∧
      ∃ ops ∈ phases.1, ∃ built ∈ ops, ¬ built.2.tensor.IsContiguous) ∧
    (∃ handed, (columnUpdate .float32 0).oneShotHandover (fun _ _ a => a) (columnMemory 0) = .ok handed ∧
      ¬ AllContiguous ((columnUpdate .float32 0).posted handed.1)) ∧
    ∃ handed, (columnUpdate .float32 0).chunkHandover (fun _ _ a => a) 1 0
        ⟨columnMemory 0, fun _ => [], fun _ => []⟩ = .ok handed ∧
      ¬ AllContiguous ((columnUpdate .float32 0).posted handed) := by
  refine ⟨column_contiguous, columnUpdate_device (.inl rfl) (a := 0) (by decide), ⟨_, rfl, ?_⟩,
    ⟨_, rfl, ?_⟩, ⟨_, rfl, ?_⟩⟩
  · decide
  · unfold AllContiguous
    decide
  · unfold AllContiguous
    decide

theorem contiguousBuffers_iff_columns :
    (∃ posted, ncclBuildRecvOps (columnParameters .float32 0) (columnPlan .float32 0) true (columnMemory 0) = .ok posted ∧
      BatchedRecvs (fun _ _ a => a) (columnParameters .float32 0) (columnPlan .float32 0) posted) ∧
    ∃ handed, (columnUpdate .float32 0).oneShotHandover (fun _ _ a => a) (columnMemory 0) = .ok handed ∧
      (AllContiguous ((columnUpdate .float32 0).posted handed.1) ↔
        (columnUpdate .float32 0).ReceivesConsecutive (fun p => 0 < timesWalked 2 p 0)) := by
  obtain ⟨-, hrecv, hcolocated⟩ := contiguousBuffers_iff (fun _ _ (a : ℕ) => a) (column_commonMetadata (.inl rfl))
    (column_contiguous)
  refine ⟨(hrecv 0 _ (by decide) (columnPlan_eq (.inl rfl) (by decide)) (columnMemory 0)).1, _, rfl, ?_⟩
  exact (hcolocated 2 0 _ (columnUpdate_device (.inl rfl) (a := 0) (by decide)) (columnMemory 0)).2.1 _ rfl

end Awex
