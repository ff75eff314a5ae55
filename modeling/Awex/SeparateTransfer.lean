import Awex.Deployment
import Mathlib.Tactic.IntervalCases

namespace Awex

variable {α : Type}

/-- What training rank `t` sends to `r`; inference ranks send nothing. -/
def inbox (b : TransferPlanBuilder) (sent : ℕ → SendOps α) (r t : ℕ) :
    Except TransferError (List (Message α)) :=
  if b.inferWorldSize ≤ t ∧ t < b.worldSize then
    outgoing (sent t).workspace.memory (batchSendRecv (sent t).p2pOpList []) r
  else .ok []

/-- The end of `_update_weights`, with the receives in the order in which they complete. -/
def finishUpdate (cast : Dtype → Dtype → α → α) (posted : RecvOps α)
    (completed : List (P2POp × Message α)) : Except TransferError (Memory α) := do
  let received ← receiveAll posted.memory completed
  syncNonContiguousTensorPairs cast posted.nonContiguousTensorPairs received

/-- The inference parameters of rank `r` have the values of the training parameters, and nothing
else has changed. -/
structure Updated (b : TransferPlanBuilder) (infer train : List ParameterMeta)
    (parameters : ℕ → Dict String Parameter) (memory : ℕ → Memory α) (r : ℕ) (final : Memory α) :
    Prop where
  elements : ∀ name im tm, (metaDict infer).get? name = some im → (metaDict train).get? name = some tm →
    ∀ e < b.numInferEngines, ∀ replica ∈ im.replicas, ∀ s ∈ replica.shards,
      r = s.globalRank + e * b.inferInstanceWorldSize → ∀ x ∈ Box.origin s.shape,
        (∃ s' x', SourceElement b im tm e s x s' x') ∧ ∀ s' x', SourceElement b im tm e s x s' x' →
          ∃ p q, (parameters (s'.globalRank + b.inferWorldSize)).get? name = some p ∧
            (parameters r).get? name = some q ∧ final.cells (q.inference.locate x) =
              (memory (s'.globalRank + b.inferWorldSize)).cells (p.training.locate x')
  others : ∀ a : Address, (∀ n, a.1 ≠ .staging n) →
    (∀ op ∈ plannedOperations b infer train none, op.recvRank = r → ∀ q,
      (parameters r).get? op.recvShardMeta.name = some q → ∀ x, op.Covers x → a ≠ q.inference.locate x) →
    final.cells a = (memory r).cells a

section Transfer

variable {b : TransferPlanBuilder} {infer train : List ParameterMeta} {plan : ℕ → TransferPlan}
  {parameters : ℕ → Dict String Parameter} {memory : ℕ → Memory α}

structure SendsPosted (b : TransferPlanBuilder) (parameters : ℕ → Dict String Parameter)
    (plan : ℕ → TransferPlan) (memory : ℕ → Memory α) (sent : ℕ → SendOps α) (t : ℕ) : Prop where
  built : ncclBuildSendOps (parameters t) (plan t) (-1) true (memory t) = .ok (sent t)
  extends_memory : (memory t).Extends (sent t).workspace.memory
  order : ∃ order, PostsInOrder (SentFor (parameters t) (sent t).workspace.memory) (plan t).operations
    (batchSendRecv (sent t).p2pOpList []) order

theorem sends_posted (hmeta : CommonMetadata b infer train)
    (hplan : ∀ g < b.worldSize, buildLocalTransferPlan b infer train g = .ok (plan g))
    (hdeploy : Deployment b infer train parameters) (memory : ℕ → Memory α) :
    ∃ sent, ∀ t, b.inferWorldSize ≤ t → t < b.worldSize → SendsPosted b parameters plan memory sent t := by
  have hbuild : ∀ t, ∃ sent : SendOps α, b.inferWorldSize ≤ t → t < b.worldSize →
      ncclBuildSendOps (parameters t) (plan t) (-1) true (memory t) = .ok sent ∧
        SendsBuilt (parameters t) (memory t) (visited (plan t).operations) sent := by
    intro t
    by_cases ht : b.inferWorldSize ≤ t ∧ t < b.worldSize
    · obtain ⟨sent, hsent⟩ := ncclBuildSendOps_spec (parameters t) (plan t) true (memory t) (fun e he => by
        rw [mem_visited, planned_train hplan ht.1 ht.2, mem_pairOperations] at he
        obtain ⟨hop, hsend, -⟩ := he
        obtain ⟨p, v, hslice, -⟩ := send_slice hmeta hdeploy hop
        exact ⟨p, v, hsend ▸ hslice⟩)
      exact ⟨sent, fun _ _ => hsent⟩
    · exact ⟨⟨⟨memory t, .empty⟩, [], [], []⟩, fun h h' => absurd ⟨h, h'⟩ ht⟩
  choose sent hsent using hbuild
  refine ⟨sent, fun t ht htw => ?_⟩
  obtain ⟨hbuilt, hspec⟩ := hsent t ht htw
  refine ⟨hbuilt, hspec.extends_memory, ?_⟩
  rw [batchSendRecv, List.append_nil]
  exact (postsInOrder_of_filter hspec.posted (filter_visited _)).interleave (fun e p2p h => h.peer_eq)

structure RecvsPosted (b : TransferPlanBuilder) (parameters : ℕ → Dict String Parameter)
    (plan : ℕ → TransferPlan) (memory : ℕ → Memory α) (posted : RecvOps α) (landings : List Landing)
    (r : ℕ) : Prop where
  built : ncclBuildRecvOps (parameters r) (plan r) true (memory r) = .ok posted
  spec : RecvsBuilt (parameters r) (memory r) (visited (plan r).operations) posted landings
  order : ∃ order, PostsInOrder (ReceivedFor (parameters r)) (plan r).operations
    (batchSendRecv [] posted.p2pOpList) order

theorem recvs_posted (hmeta : CommonMetadata b infer train)
    (hplan : ∀ g < b.worldSize, buildLocalTransferPlan b infer train g = .ok (plan g))
    (hdeploy : Deployment b infer train parameters) (memory : ℕ → Memory α) (r : ℕ)
    (hr : r < b.inferWorldSize) :
    ∃ posted landings, RecvsPosted b parameters plan memory posted landings r := by
  obtain ⟨posted, landings, hbuilt, hspec⟩ := ncclBuildRecvOps_spec (parameters r) (plan r) (memory r)
    (fun e he => by
      rw [mem_visited, planned_infer hplan hr, mem_pairOperations] at he
      obtain ⟨hop, -, hrecv⟩ := he
      obtain ⟨q, v, -, hslice, -⟩ := recv_slice hmeta hdeploy hop
      exact ⟨q, v, hrecv ▸ hslice⟩)
  refine ⟨posted, landings, hbuilt, hspec, ?_⟩
  rw [batchSendRecv, List.nil_append]
  refine (postsInOrder_of_filter ?_ (filter_visited _)).interleave (fun e p2p h => h.peer_eq)
  rw [← hspec.entries, hspec.posted, List.forall₂_map_left_iff, List.forall₂_map_right_iff,
    List.forall₂_same]
  exact fun l hl => ⟨l, rfl, rfl, hspec.ok l hl⟩

/-- `source op` is the training slice that the operation sends. -/
def Sources (b : TransferPlanBuilder) (infer train : List ParameterMeta)
    (parameters : ℕ → Dict String Parameter) (source : CommunicationOperation → Tensor) : Prop :=
  ∀ op ∈ plannedOperations b infer train none, ∃ p, SendSlice (parameters op.sendRank) op p (source op) ∧
    PartOf p.training (source op) op.sendOffset op.overlapShape

theorem sources_exist (hmeta : CommonMetadata b infer train)
    (hdeploy : Deployment b infer train parameters) :
    ∃ source, Sources b infer train parameters source := by
  have h : ∀ op, ∃ v, op ∈ plannedOperations b infer train none → ∃ p,
      SendSlice (parameters op.sendRank) op p v ∧ PartOf p.training v op.sendOffset op.overlapShape := by
    intro op
    by_cases hop : op ∈ plannedOperations b infer train none
    · obtain ⟨p, v, h⟩ := send_slice hmeta hdeploy hop
      exact ⟨v, fun _ => ⟨p, h⟩⟩
    · exact ⟨⟨.staging 0, 0, [], .bool⟩, fun h => absurd h hop⟩
  choose source hsource using h
  exact ⟨source, hsource⟩

def sliceMessage (memory : ℕ → Memory α) (source : CommunicationOperation → Tensor)
    (op : CommunicationOperation) : Message α :=
  ⟨(source op).dtype, (memory op.sendRank).read (source op)⟩

theorem outgoing_eq (hplan : ∀ g < b.worldSize, buildLocalTransferPlan b infer train g = .ok (plan g))
    {source : CommunicationOperation → Tensor} (hsource : Sources b infer train parameters source)
    {sent : ℕ → SendOps α} {t : ℕ} (ht : b.inferWorldSize ≤ t) (htw : t < b.worldSize)
    (hsent : SendsPosted b parameters plan memory sent t) (r : ℕ) :
    outgoing (sent t).workspace.memory (batchSendRecv (sent t).p2pOpList []) r =
      .ok ((pairOperations (plannedOperations b infer train none) t r).map (sliceMessage memory source)) := by
  obtain ⟨order, horder⟩ := hsent.order
  have hfor := horder.opsFor (fun e p2p h => h.peer_eq) r
  rw [planned_train hplan ht htw] at hfor
  have hall : ∀ p2p ∈ batchSendRecv (sent t).p2pOpList [], p2p.op = .send := by
    intro p2p hp2p
    obtain ⟨e, -, hsentFor⟩ := exists_of_forall₂_mem_right horder.posts hp2p
    exact hsentFor.1
  have hsends : sendsTo (batchSendRecv (sent t).p2pOpList []) r =
      opsFor (batchSendRecv (sent t).p2pOpList []) r := by
    apply List.filter_congr
    intro p2p hp2p
    simp [hall p2p hp2p]
  rw [outgoing, hsends, Except.mapM_eq_ok, List.forall₂_map_right_iff]
  refine List.Forall₂.flip (((List.forall₂_and_left _ _).mpr ⟨fun _ hop => hop, hfor⟩).imp ?_)
  rintro op p2p ⟨hop, -, -, p', v, hslice', hcarries⟩
  obtain ⟨hplanned, rfl, -⟩ := mem_pairOperations.mp hop
  obtain ⟨p, hslice, -⟩ := hsource op hplanned
  obtain rfl := Option.some.inj (hslice.parameter.symm.trans hslice'.parameter)
  obtain rfl := Except.ok.inj (hslice.index.symm.trans hslice'.index)
  refine hcarries.message.trans ?_
  rw [hsent.extends_memory.read_eq (Parameter.training_live hslice.index _)]
  rfl

theorem inbox_eq (hmeta : CommonMetadata b infer train)
    (hplan : ∀ g < b.worldSize, buildLocalTransferPlan b infer train g = .ok (plan g))
    (hdeploy : Deployment b infer train parameters)
    {source : CommunicationOperation → Tensor} (hsource : Sources b infer train parameters source)
    {sent : ℕ → SendOps α} (hsent : ∀ t, b.inferWorldSize ≤ t → t < b.worldSize →
      SendsPosted b parameters plan memory sent t) (r t : ℕ) :
    inbox b sent r t =
      .ok ((pairOperations (plannedOperations b infer train none) t r).map (sliceMessage memory source)) := by
  unfold inbox
  split_ifs with ht
  · exact outgoing_eq hplan hsource ht.1 ht.2 (hsent t ht.1 ht.2) r
  · have hnil : pairOperations (plannedOperations b infer train none) t r = [] := by
      apply List.eq_nil_iff_forall_not_mem.mpr
      intro op hop
      obtain ⟨hplanned, rfl, -⟩ := mem_pairOperations.mp hop
      exact ht ⟨(planned_law hmeta hplanned).2.2.1, send_lt hmeta hdeploy hplanned⟩
    rw [hnil]
    rfl

variable {posted : RecvOps α} {landings : List Landing} {r : ℕ}

theorem landing_op (hplan : ∀ g < b.worldSize, buildLocalTransferPlan b infer train g = .ok (plan g))
    (hr : r < b.inferWorldSize) (hposted : RecvsPosted b parameters plan memory posted landings r)
    {l : Landing} (hl : l ∈ landings) :
    l.op ∈ plannedOperations b infer train none ∧ l.op.sendRank = l.peer ∧ l.op.recvRank = r := by
  have he : l.entry ∈ visited (plan r).operations := by
    rw [← hposted.spec.entries]
    exact List.mem_map_of_mem hl
  rwa [mem_visited, planned_infer hplan hr, mem_pairOperations] at he

theorem landing_of_op (hplan : ∀ g < b.worldSize, buildLocalTransferPlan b infer train g = .ok (plan g))
    (hr : r < b.inferWorldSize) (hposted : RecvsPosted b parameters plan memory posted landings r)
    {op : CommunicationOperation} (hop : op ∈ plannedOperations b infer train none)
    (hrecv : op.recvRank = r) : ∃ l ∈ landings, l.op = op := by
  have he : (op.sendRank, op) ∈ visited (plan r).operations := by
    rw [mem_visited, planned_infer hplan hr, mem_pairOperations]
    exact ⟨hop, rfl, hrecv⟩
  rw [← hposted.spec.entries] at he
  obtain ⟨l, hl, heq⟩ := List.mem_map.mp he
  exact ⟨l, hl, (Prod.mk.inj heq).2⟩

theorem landing_entries (hmeta : CommonMetadata b infer train)
    (hplan : ∀ g < b.worldSize, buildLocalTransferPlan b infer train g = .ok (plan g))
    (hr : r < b.inferWorldSize) (hposted : RecvsPosted b parameters plan memory posted landings r) :
    (landings.map Landing.entry).Nodup := by
  rw [hposted.spec.entries]
  apply visited_nodup
  intro p
  rw [planned_infer hplan hr]
  exact pairOperations_nodup (planned_nodup hmeta) p r

theorem landing_view (hmeta : CommonMetadata b infer train)
    (hplan : ∀ g < b.worldSize, buildLocalTransferPlan b infer train g = .ok (plan g))
    (hdeploy : Deployment b infer train parameters) (hr : r < b.inferWorldSize)
    (hposted : RecvsPosted b parameters plan memory posted landings r) {l : Landing} (hl : l ∈ landings) :
    ∃ q, (parameters r).get? l.op.recvShardMeta.name = some q ∧
      q.inference.shape = l.op.recvShardMeta.shape ∧
      PartOf q.inference l.view l.op.recvOffset l.op.overlapShape := by
  obtain ⟨hop, -, rfl⟩ := landing_op hplan hr hposted hl
  obtain ⟨q, v, hshape, hslice, hpart⟩ := recv_slice hmeta hdeploy hop
  obtain ⟨q', hslice'⟩ := (hposted.spec.ok l hl).slice
  obtain rfl := Option.some.inj (hslice.parameter.symm.trans hslice'.parameter)
  obtain rfl := Except.ok.inj (hslice.index.symm.trans hslice'.index)
  exact ⟨q, hslice.parameter, hshape, hpart⟩

theorem views_apart (hmeta : CommonMetadata b infer train)
    (hplan : ∀ g < b.worldSize, buildLocalTransferPlan b infer train g = .ok (plan g))
    (hdeploy : Deployment b infer train parameters) (hr : r < b.inferWorldSize)
    (hposted : RecvsPosted b parameters plan memory posted landings r) : ViewsApart landings := by
  intro l hl l' hl' y hy y' hy' heq
  obtain ⟨hop, hsend, hrecv⟩ := landing_op hplan hr hposted hl
  obtain ⟨hop', hsend', hrecv'⟩ := landing_op hplan hr hposted hl'
  obtain ⟨q, hq, hshape, hpart⟩ := landing_view hmeta hplan hdeploy hr hposted hl
  obtain ⟨q', hq', hshape', hpart'⟩ := landing_view hmeta hplan hdeploy hr hposted hl'
  have hsame := (planned_law hmeta hop).1
  have hsame' := (planned_law hmeta hop').1
  rw [hpart.shape_eq] at hy
  rw [hpart'.shape_eq] at hy'
  rw [hpart.locate_eq y hy, hpart'.locate_eq y' hy'] at heq
  have hcov := (hsame.covers_iff _).mpr ⟨y, hy, rfl⟩
  have hcov' := (hsame'.covers_iff _).mpr ⟨y', hy', rfl⟩
  have hname := hdeploy.distinct_storage r hr _ _ q q' hq hq'
    (Buffer.inference.inj (congrArg Prod.fst heq))
  obtain rfl := Option.some.inj ((hname ▸ hq).symm.trans hq')
  have hindex := hdeploy.distinct_elements r hr _ q hq _
    (hshape ▸ inSlices_inside hsame.recv_inside hcov) _
    (hshape' ▸ inSlices_inside hsame'.recv_inside hcov') heq
  rw [← hindex] at hcov'
  have hops : l.op = l'.op := planned_unique hmeta hop hop'
    (by rw [shard_names hmeta hdeploy hop, shard_names hmeta hdeploy hop', hname])
    (hrecv'.trans hrecv.symm) hcov hcov'
  have hentry : l.entry = l'.entry := Prod.ext (hsend.symm.trans ((congrArg _ hops).trans hsend')) hops
  obtain rfl := List.inj_on_of_nodup_map (landing_entries hmeta hplan hr hposted) hl hl' hentry
  refine ⟨rfl, zipWith_add_left_cancel l.op.recvOffset y y' ?_ ?_ hindex⟩
  · exact (Box.within_length hy).2.symm.trans hsame.recv_dims.symm
  · exact (Box.within_length hy').2.symm.trans hsame.recv_dims.symm

def landingMessage (memory : ℕ → Memory α) (source : CommunicationOperation → Tensor) (l : Landing) :
    Message α :=
  sliceMessage memory source l.op

theorem payload_ok (hmeta : CommonMetadata b infer train)
    (hplan : ∀ g < b.worldSize, buildLocalTransferPlan b infer train g = .ok (plan g))
    (hdeploy : Deployment b infer train parameters) (hr : r < b.inferWorldSize)
    (hposted : RecvsPosted b parameters plan memory posted landings r)
    {source : CommunicationOperation → Tensor} (hsource : Sources b infer train parameters source)
    {l : Landing} (hl : l ∈ landings) : PayloadOk (landingMessage memory source) l := by
  obtain ⟨hop, -, -⟩ := landing_op hplan hr hposted hl
  obtain ⟨q, hq, -, hpart⟩ := landing_view hmeta hplan hdeploy hr hposted hl
  obtain ⟨p, hslice, hpart'⟩ := hsource l.op hop
  constructor
  · have hp := hslice.parameter
    rw [shard_names hmeta hdeploy hop] at hp
    refine hpart'.dtype_eq.trans (Eq.trans ?_ hpart.dtype_eq.symm)
    exact hdeploy.same_dtype _ r _ p q (planned_law hmeta hop).2.2.1 hr hp hq
  · refine (Memory.length_read _ _).trans ?_
    rw [Tensor.numel, Tensor.numel, hpart'.shape_eq, hpart.shape_eq]

theorem matching (hplan : ∀ g < b.worldSize, buildLocalTransferPlan b infer train g = .ok (plan g))
    (hr : r < b.inferWorldSize) (hposted : RecvsPosted b parameters plan memory posted landings r)
    (source : CommunicationOperation → Tensor) :
    ∃ matched, matchMessages (fun t => (pairOperations (plannedOperations b infer train none) t r).map
        (sliceMessage memory source)) (batchSendRecv [] posted.p2pOpList) = some (matched, fun _ => []) ∧
      matched.Perm (landings.map (fun l => (l.p2p, landingMessage memory source l))) := by
  have hreceives : receives (batchSendRecv [] posted.p2pOpList) = batchSendRecv [] posted.p2pOpList := by
    obtain ⟨order, horder⟩ := hposted.order
    apply List.filter_eq_self.mpr
    intro p2p hp2p
    obtain ⟨e, -, l, -, rfl, -⟩ := exists_of_forall₂_mem_right horder.posts hp2p
    rfl
  have hfor : ∀ t, opsFor (batchSendRecv [] posted.p2pOpList) t =
      (landings.filter (fun l => l.peer = t)).map Landing.p2p := by
    intro t
    rw [batchSendRecv, List.nil_append, opsFor_interleave, hposted.spec.posted, opsFor, List.filter_map]
    rfl
  have hqueue : ∀ t, pairOperations (plannedOperations b infer train none) t r =
      (landings.filter (fun l => l.peer = t)).map Landing.op := by
    intro t
    have hfilter := filter_visited (plan r).operations t
    rw [← hposted.spec.entries, List.filter_map, planned_infer hplan hr] at hfilter
    have hsnd := congrArg (List.map Prod.snd) hfilter
    rw [List.map_map, List.map_map] at hsnd
    exact ((List.map_id _).symm.trans hsnd.symm)
  unfold matchMessages
  rw [hreceives]
  obtain ⟨matched, left, hdeliver⟩ := Fifo.deliver_isSome (fun p2p : P2POp => p2p.peer)
    (fun t => (pairOperations (plannedOperations b infer train none) t r).map
      (sliceMessage memory source)) (batchSendRecv [] posted.p2pOpList) (fun t => by
      have hlength := congrArg List.length (hfor t)
      rw [opsFor, List.length_map] at hlength
      rw [hlength, hqueue, List.length_map, List.length_map])
  have hshare := fun t => Fifo.filter_deliver hdeliver t
  have hpairs : ∀ t, matched.filter (fun pair => pair.1.peer = t) =
      (landings.filter (fun l => l.peer = t)).map (fun l => (l.p2p, landingMessage memory source l)) := by
    intro t
    have hfor' := hfor t
    rw [opsFor] at hfor'
    rw [hshare, hfor', hqueue, List.map_map, List.zip_map']
    rfl
  have hleft : left = fun _ => [] := by
    funext t
    have hlength := congrArg List.length (Fifo.deliver_queue hdeliver t)
    rw [hpairs, hqueue, List.length_append] at hlength
    simp only [List.length_map] at hlength
    exact List.length_eq_zero_iff.mp (by omega)
  refine ⟨matched, hleft ▸ hdeliver, ?_⟩
  apply RoundRobin.perm_of_filter_eq (fun pair => pair.1.peer)
  intro t
  rw [hpairs, List.filter_map]
  rfl

theorem update_finishes (cast : Dtype → Dtype → α → α) (hmeta : CommonMetadata b infer train)
    (hplan : ∀ g < b.worldSize, buildLocalTransferPlan b infer train g = .ok (plan g))
    (hdeploy : Deployment b infer train parameters) (hr : r < b.inferWorldSize)
    (hposted : RecvsPosted b parameters plan memory posted landings r)
    {source : CommunicationOperation → Tensor} (hsource : Sources b infer train parameters source)
    {completed : List (P2POp × Message α)}
    (hperm : completed.Perm (landings.map (fun l => (l.p2p, landingMessage memory source l)))) :
    ∃ final, finishUpdate cast posted completed = .ok final ∧
      Updated b infer train parameters memory r final := by
  obtain ⟨received, final, hreceived, hfinal, hread, hothers⟩ := delivered cast hposted.spec.ok
    (fun l hl => payload_ok hmeta hplan hdeploy hr hposted hsource hl) hposted.spec.apart
    (views_apart hmeta hplan hdeploy hr hposted) hperm posted.memory
  refine ⟨final, Except.bind_eq_ok.mpr ⟨received, hreceived, hposted.spec.pairs ▸ hfinal⟩, ?_, ?_⟩
  · intro name im tm hi ht e he replica hreplica s hs hrank x hx
    obtain ⟨_, _, hops⟩ := plan_mapped (hplan r (hr.trans_le (Nat.le_add_left _ _)))
    refine ⟨source_exists (hmeta.layout name im tm hi ht) (training_replicas_ne hops hi ht) he hreplica hs
      hx, fun s' x' helement => ?_⟩
    obtain ⟨op, hop, rfl, rfl, hrecv, hsend, y, hy, rfl, rfl⟩ := source_planned hmeta hi ht hx helement
    obtain ⟨l, hl, rfl⟩ := landing_of_op hplan hr hposted hop (hrecv.trans hrank.symm)
    obtain ⟨q, hq, -, hpart⟩ := landing_view hmeta hplan hdeploy hr hposted hl
    obtain ⟨p, hslice, hpart'⟩ := hsource l.op hop
    have hname := hdeploy.infer_name name im hi replica hreplica _ hs
    have hp := hslice.parameter
    rw [shard_names hmeta hdeploy hop, hname, hsend] at hp
    rw [hname] at hq
    have hvalues := hread l hl
    rw [Memory.read, Tensor.addresses, hpart.shape_eq, List.map_map, landingMessage, sliceMessage,
      Memory.read, Tensor.addresses, hpart'.shape_eq, List.map_map] at hvalues
    have hvalue := List.map_inj_left.mp hvalues y ((Box.mem_indices _ _).mpr hy)
    simp only [Function.comp_apply, hpart.locate_eq y hy, hpart'.locate_eq y hy, hsend] at hvalue
    exact ⟨p, q, hp, hq, hvalue⟩
  · intro a ha houtside
    rw [hothers a ha (fun l hl hmem => ?_)]
    · exact hposted.spec.extends_memory.cells_eq a (fun n hn => absurd hn (ha n))
    · obtain ⟨hop, -, hrecv⟩ := landing_op hplan hr hposted hl
      obtain ⟨q, hq, -, hpart⟩ := landing_view hmeta hplan hdeploy hr hposted hl
      obtain ⟨y, hy, rfl⟩ := List.mem_map.mp hmem
      rw [Box.mem_indices, hpart.shape_eq] at hy
      exact houtside l.op hop hrecv q hq _
        (((planned_law hmeta hop).1.covers_iff _).mpr ⟨y, hy, rfl⟩) (hpart.locate_eq y hy)

structure PairMatched (parameters : ℕ → Dict String Parameter) (plan : ℕ → TransferPlan)
    (sent : ℕ → SendOps α) (posted : ℕ → RecvOps α) (t r : ℕ) : Prop where
  same_plan : planned (plan t).operations r = planned (plan r).operations t
  sends : List.Forall₂ (fun op p2p => SentFor (parameters t) (sent t).workspace.memory (r, op) p2p)
    (planned (plan t).operations r) (opsFor (batchSendRecv (sent t).p2pOpList []) r)
  receives : List.Forall₂ (fun op p2p => ReceivedFor (parameters r) (t, op) p2p)
    (planned (plan r).operations t) (opsFor (batchSendRecv [] (posted r).p2pOpList) t)

end Transfer

/-- Messages of a pair of ranks match in the order of the pair's list, and every update leaves the
training values in the inference parameters. -/
theorem separate_transfer (cast : Dtype → Dtype → α → α) (b : TransferPlanBuilder)
    (infer train : List ParameterMeta) (plan : ℕ → TransferPlan)
    (parameters : ℕ → Dict String Parameter) (memory : ℕ → Memory α)
    (hmeta : CommonMetadata b infer train)
    (hplan : ∀ g < b.worldSize, buildLocalTransferPlan b infer train g = .ok (plan g))
    (hdeploy : Deployment b infer train parameters) :
    ∃ (sent : ℕ → SendOps α) (posted : ℕ → RecvOps α),
      (∀ t, b.inferWorldSize ≤ t → t < b.worldSize →
        SendsPosted b parameters plan memory sent t ∧
          ∀ r < b.inferWorldSize, PairMatched parameters plan sent posted t r) ∧
      ∀ r < b.inferWorldSize,
        ncclBuildRecvOps (parameters r) (plan r) true (memory r) = .ok (posted r) ∧
        (∃ order, PostsInOrder (ReceivedFor (parameters r)) (plan r).operations
          (batchSendRecv [] (posted r).p2pOpList) order) ∧
        ∃ queues matched, (∀ t, inbox b sent r t = .ok (queues t)) ∧
          matchMessages queues (batchSendRecv [] (posted r).p2pOpList) = some (matched, fun _ => []) ∧
          ∀ completed, completed.Perm matched → ∃ final, finishUpdate cast (posted r) completed = .ok final ∧
            Updated b infer train parameters memory r final := by
  obtain ⟨sent, hsent⟩ := sends_posted hmeta hplan hdeploy memory
  have hrecv : ∀ r, ∃ posted, r < b.inferWorldSize →
      ∃ landings, RecvsPosted b parameters plan memory posted landings r := by
    intro r
    by_cases hr : r < b.inferWorldSize
    · obtain ⟨posted, hposted⟩ := recvs_posted hmeta hplan hdeploy memory r hr
      exact ⟨posted, fun _ => hposted⟩
    · exact ⟨⟨memory r, [], [], []⟩, fun h => absurd h hr⟩
  choose posted hposted using hrecv
  obtain ⟨source, hsource⟩ := sources_exist hmeta hdeploy
  refine ⟨sent, posted, fun t ht htw => ⟨hsent t ht htw, fun r hr => ?_⟩, fun r hr => ?_⟩
  · obtain ⟨landings, hlandings⟩ := hposted r hr
    obtain ⟨order, horder⟩ := (hsent t ht htw).order
    obtain ⟨order', horder'⟩ := hlandings.order
    refine ⟨?_, horder.opsFor (fun e p2p h => h.peer_eq) r, horder'.opsFor (fun e p2p h => h.peer_eq) t⟩
    rw [planned_train hplan ht htw, planned_infer hplan hr]
  · obtain ⟨landings, hlandings⟩ := hposted r hr
    obtain ⟨matched, hmatched, hperm⟩ := matching hplan hr hlandings source
    refine ⟨hlandings.built, hlandings.order, _, matched, inbox_eq hmeta hplan hdeploy hsource hsent r,
      hmatched, fun completed hcompleted => ?_⟩
    exact update_finishes cast hmeta hplan hdeploy hr hlandings hsource (hcompleted.trans hperm)

theorem gateProjParameters_get? {transferRank : ℕ} {name : String} {p : Parameter}
    (h : (gateProjParameters transferRank).get? name = some p) :
    name = gateProjInfer.name ∧ p.storage = 0 ∧ p.dtype = .float32 ∧ p.inference.IsContiguous := by
  have hget : (gateProjParameters transferRank).get? name =
      if gateProjInfer.name = name then (gateProjParameters transferRank).get? gateProjInfer.name
      else none := rfl
  rw [hget] at h
  split_ifs at h with hname
  obtain rfl := Option.some.inj h
  refine ⟨hname.symm, rfl, rfl, .inr ?_⟩
  simp only [Parameter.inference, Strided.denseStride, Option.bind_some, ↓reduceIte]
  split_ifs <;> rfl

theorem heldTensors_single {b : TransferPlanBuilder} {parameters : ℕ → Dict String Parameter} {param : String}
    {dtype : Dtype} (hget : ∀ rank name p, (parameters rank).get? name = some p →
      name = param ∧ p.dtype = dtype ∧ p.inference.IsContiguous) : HeldTensors b parameters := by
  constructor
  · intro t r name p q _ _ hp hq
    rw [(hget t name p hp).2.1, (hget r name q hq).2.1]
  · intro r _ name name' q q' hq hq' _
    rw [(hget r name q hq).1, (hget r name' q' hq').1]
  · intro r _ name q hq x hx x' hx' heq
    exact locate_inj_of_contiguous (hget r name q hq).2.2 hx hx' heq

theorem deployment_single {b : TransferPlanBuilder} {im tm : ParameterMeta} {parameters : ℕ → Dict String Parameter}
    {dtype : Dtype} (htrain : ∀ r ∈ tm.replicas, ∀ s ∈ r.shards, s.globalRank < b.trainWorldSize ∧
      ((parameters (s.globalRank + b.inferWorldSize)).get? s.name).map (·.training.shape) = some s.shape)
    (hname : ∀ r ∈ im.replicas, ∀ s ∈ r.shards, s.name = im.name)
    (hinfer : ∀ e < b.numInferEngines, ∀ r ∈ im.replicas, ∀ s ∈ r.shards,
      ((parameters (s.globalRank + e * b.inferInstanceWorldSize)).get? s.name).map (·.inference.shape) = some s.shape)
    (hget : ∀ rank name p, (parameters rank).get? name = some p →
      name = im.name ∧ p.dtype = dtype ∧ p.inference.IsContiguous) : Deployment b [im] [tm] parameters := by
  refine ⟨heldTensors_single hget, ?_, ?_, ?_, ?_⟩
  · intro name tm' ht r hr s hs
    obtain ⟨-, rfl⟩ := of_metaDict_singleton ht
    exact (htrain r hr s hs).1
  · intro name tm' ht r hr s hs
    obtain ⟨-, rfl⟩ := of_metaDict_singleton ht
    exact Option.map_eq_some_iff.mp (htrain r hr s hs).2
  · intro name im' hi r hr s hs
    obtain ⟨rfl, rfl⟩ := of_metaDict_singleton hi
    exact hname r hr s hs
  · intro name im' hi e he r hr s hs
    obtain ⟨-, rfl⟩ := of_metaDict_singleton hi
    exact Option.map_eq_some_iff.mp (hinfer e he r hr s hs)

theorem gateProj_deployment : Deployment .twoEngines [gateProjInfer] [gateProjTrain] gateProjParameters := by
  apply deployment_single
  · decide
  · decide
  · decide
  · intro rank name p hp
    exact ⟨(gateProjParameters_get? hp).1, (gateProjParameters_get? hp).2.2⟩

theorem gateProj_plans : ∀ g < TransferPlanBuilder.twoEngines.worldSize,
    buildLocalTransferPlan .twoEngines [gateProjInfer] [gateProjTrain] g = .ok (gateProjPlan g) := by
  intro g hg
  change g < 6 at hg
  interval_cases g <;> rfl

theorem separate_transfer_gateProj : ∃ (posted : RecvOps ℕ) (completed : List (P2POp × Message ℕ))
    (final : Memory ℕ),
    ncclBuildRecvOps (gateProjParameters 3) (gateProjPlan 3) true (gateProjMemory 3) = .ok posted ∧
      finishUpdate (fun _ _ a => a) posted completed = .ok final ∧ final.cells (.inference 0, 4) = 52 := by
  obtain ⟨sent, posted, -, hrecv⟩ := separate_transfer (fun _ _ a => a) .twoEngines [gateProjInfer]
    [gateProjTrain] gateProjPlan gateProjParameters gateProjMemory gateProj_commonMetadata gateProj_plans
    gateProj_deployment
  obtain ⟨hbuilt, -, queues, matched, -, -, hfinish⟩ := hrecv 3 (by decide)
  obtain ⟨final, hfinal, hupdated⟩ := hfinish matched (.refl _)
  have hsource : SourceElement .twoEngines gateProjInfer gateProjTrain 1
      (ShardSpec.shard ⟨1, 3, 5⟩ gateProjInfer.name 2 2) [4]
      (ShardSpec.shard ⟨1, 5, 3⟩ gateProjInfer.name 2 2) [2] :=
    ⟨⟨1, _, _, rfl, rfl, by decide, by decide⟩, by decide, by decide⟩
  obtain ⟨-, hvalue⟩ := hupdated.elements gateProjInfer.name gateProjInfer gateProjTrain rfl rfl 1
    (by decide) _ (List.mem_singleton_self _) (ShardSpec.shard ⟨1, 3, 5⟩ gateProjInfer.name 2 2)
    (by decide) (by decide) [4] (by decide)
  obtain ⟨p, q, hp, hq, hcells⟩ := hvalue _ _ hsource
  obtain rfl := Option.some.inj hp
  obtain rfl := Option.some.inj hq
  exact ⟨posted 3, matched, final, hbuilt, hfinal, hcells⟩

end Awex
