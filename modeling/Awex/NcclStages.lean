import Awex.ColocatePrepare
import Awex.NcclColocate

namespace Awex

theorem validateOneWay_get? {mapping inverse : Dict ℕ ℕ} (h : validateOneWay mapping inverse = .ok ()) {k v : ℕ}
    (hk : mapping.get? k = some v) : inverse.get? v = some k := by
  have hentry := Except.forM_eq_ok.mp h (k, v) ((Dict.get?_eq_some mapping k v).mp hk)
  dsimp only at hentry
  by_contra hne
  rw [if_neg hne] at hentry
  cases hentry

theorem validateRankMappings_get? {trainToInfer inferToTrain : Dict ℕ ℕ}
    (h : validateRankMappings trainToInfer inferToTrain = .ok ()) {r t : ℕ} (hr : inferToTrain.get? r = some t) :
    trainToInfer.get? t = some r := by
  obtain ⟨_, -, h⟩ := Except.bind_eq_ok.mp h
  exact validateOneWay_get? h hr

namespace NcclColocateTransport

open ColocateUpdate

variable {α : Type} (u : ColocateUpdate)

def stageSends (stage : ℕ) : List CommunicationOperation :=
  if sendToRank u stage = u.transferRank then []
  else u.sendTransferPlan.operations.getD (sendToRank u stage) []

def stageRecvs (stage : ℕ) : List CommunicationOperation :=
  if recvFromRank u stage = u.transferRank then []
  else u.recvTransferPlan.operations.getD (mapRank u.inferToTrain (recvFromRank u stage)) []

structure StageSent (m : Memory α) (sendTo : ℕ) (op : CommunicationOperation) (built : BuiltOp) : Prop where
  can : u.CanSend op
  op_eq : built.1 = op
  send : built.2.op = .send
  peer : built.2.peer = sendTo
  carries : Carries m built.2.tensor (u.sendView op)
  not_inference : ¬ built.2.tensor.IsInference

structure StagePosted (m : Memory α) (stage : ℕ) (s : StageOps) : Prop where
  offset : s.stageOffset = stage % u.worldSize
  sends : List.Forall₂ (StageSent u m (sendToRank u stage)) (stageSends u stage) s.sendOps
  can_recv : ∀ op ∈ stageRecvs u stage, u.CanRecv op
  recvs : s.recvOps = (stageRecvs u stage).map (u.recvBuilt (recvFromRank u stage))

variable {u} {m₀ : Memory α}

theorem StageSent.keep {m m' : Memory α} {sendTo : ℕ} {op : CommunicationOperation} {built : BuiltOp}
    (h : StageSent u m sendTo op built) (hm : m.Keeps m') : StageSent u m' sendTo op built :=
  ⟨h.can, h.op_eq, h.send, h.peer, h.carries.keep hm h.not_inference (h.can.live m) h.can.not_inference,
    h.not_inference⟩

theorem StagePosted.keep {m m' : Memory α} {stage : ℕ} {s : StageOps} (h : StagePosted u m stage s)
    (hm : m.Keeps m') : StagePosted u m' stage s :=
  ⟨h.offset, h.sends.imp (fun _ _ hs => hs.keep hm), h.can_recv, h.recvs⟩

structure SendingTo (m₀ : Memory α) (b : StageBuild α) (sendTo : ℕ) (done : List CommunicationOperation)
    (s : StageSends α) : Prop where
  ready : u.Ready m₀ s.workspace
  extends_memory : b.workspace.memory.Extends s.workspace.memory
  sends : List.Forall₂ (StageSent u s.workspace.memory sendTo) (if sendTo = u.transferRank then [] else done)
    s.p2pSendOps

theorem buildStageSend_spec {b : StageBuild α} {sendTo : ℕ} {done : List CommunicationOperation}
    {s s' : StageSends α} {op : CommunicationOperation} (hs : SendingTo (u := u) m₀ b sendTo done s)
    (h : buildStageSend u sendTo s op = .ok s') : SendingTo (u := u) m₀ b sendTo (done ++ [op]) s' := by
  obtain ⟨r, hr, h⟩ := Except.bind_eq_ok.mp h
  have hcan := u.canSend_of_slice hr
  obtain ⟨⟨op', t⟩, w, hslice, hready, hext, hsliced⟩ := u.sliceSendOp_exists hs.ready hcan
  obtain rfl := Except.ok.inj (hr.symm.trans hslice)
  have hkeep := hs.sends.imp (fun _ _ hsent => hsent.keep hext.keeps)
  dsimp only at h
  split_ifs at h with hself hrank
  · obtain rfl := Except.ok.inj h
    rw [if_pos hself] at hkeep
    exact ⟨hready, hs.extends_memory.trans hext, by rwa [if_pos hself]⟩
  · obtain rfl := Except.ok.inj h
    obtain ⟨hext', hclone⟩ := w.memory.clone_spec t hsliced.carries.live
    have hcarries : Carries (w.memory.clone t).2 (w.memory.clone t).1 (u.sendView op) := by
      have hview := hsliced.carries.mono hext' (hcan.live w.memory)
      exact ⟨hclone.contiguous, hclone.live, hclone.shape_eq.trans hview.shape_eq,
        hclone.dtype_eq.trans hview.dtype_eq, hclone.read_eq.trans hview.read_eq⟩
    refine ⟨⟨hready.keeps.trans hext'.keeps, hready.context.mono hext'⟩,
      (hs.extends_memory.trans hext).trans hext', ?_⟩
    rw [if_neg hself] at hkeep ⊢
    apply List.rel_append (hkeep.imp (fun _ _ hsent => hsent.keep hext'.keeps))
    exact .cons ⟨hcan, rfl, rfl, (not_not.mp hrank).symm, hcarries,
      staging_not_inference ⟨_, w.memory.clone_staging t⟩⟩ .nil

theorem buildStageRecvs_spec {recvFrom sendRank : ℕ} {memory : Memory α} {ops : List CommunicationOperation}
    {built : List BuiltOp} (h : ops.foldlM (buildStageRecv u recvFrom sendRank recvFrom memory) [] = .ok built) :
    (∀ op ∈ (if recvFrom = u.transferRank then [] else ops), u.CanRecv op) ∧
      built = (if recvFrom = u.transferRank then [] else ops).map (u.recvBuilt recvFrom) := by
  refine Except.foldlM_induction (fun done built =>
    (∀ op ∈ (if recvFrom = u.transferRank then [] else done), u.CanRecv op) ∧
      built = (if recvFrom = u.transferRank then [] else done).map (u.recvBuilt recvFrom)) h ?_ ?_
  · simp
  · rintro done op built built' - ⟨hcan, rfl⟩ hstep
    unfold buildStageRecv at hstep
    by_cases hself : recvFrom = u.transferRank
    · rw [if_pos hself] at hstep
      obtain rfl := Except.ok.inj hstep
      simp [hself]
    · rw [if_neg hself] at hstep hcan ⊢
      obtain ⟨r, hr, hstep⟩ := Except.bind_eq_ok.mp hstep
      obtain ⟨hcanop, rfl⟩ := u.buildRecvOp_eq_ok.mp hr
      split_ifs at hstep with hrank
      obtain rfl := Except.ok.inj hstep
      rw [List.map_append, List.map_singleton]
      refine ⟨?_, rfl⟩
      intro op' hop'
      rcases List.mem_append.mp hop' with hop' | hop'
      · exact hcan op' hop'
      · exact List.mem_singleton.mp hop' ▸ hcanop

structure StagesBuilt (m₀ : Memory α) (stages : List ℕ) (b : StageBuild α) : Prop where
  ready : u.Ready m₀ b.workspace
  posted : List.Forall₂ (StagePosted u b.workspace.memory) stages b.stages

theorem buildStage_spec (hmap : validateRankMappings u.trainToInfer u.inferToTrain = .ok ()) {stages : List ℕ}
    {stage : ℕ} {b b' : StageBuild α} (hb : StagesBuilt (u := u) m₀ stages b) (h : buildStage u b stage = .ok b') :
    StagesBuilt (u := u) m₀ (stages ++ [stage]) b' := by
  obtain ⟨sends, hsends, h⟩ := Except.bind_eq_ok.mp h
  obtain ⟨sendRank, hsendRank, h⟩ := Except.bind_eq_ok.mp h
  obtain ⟨opSendRank, hopSendRank, h⟩ := Except.bind_eq_ok.mp h
  obtain ⟨recvs, hrecvs, h⟩ := Except.bind_eq_ok.mp h
  have hmapped := lookupRank_eq_ok.mp hsendRank
  obtain rfl := Option.some.inj ((lookupRank_eq_ok.mp hopSendRank).symm.trans
    (validateRankMappings_get? hmap hmapped))
  have hsent : SendingTo (u := u) m₀ b (sendToRank u stage)
      (u.sendTransferPlan.operations.getD (sendToRank u stage) []) sends :=
    Except.foldlM_induction (SendingTo (u := u) m₀ b (sendToRank u stage)) hsends
      ⟨hb.ready, .refl _, by split_ifs <;> exact .nil⟩ (fun _ _ _ _ _ hs hstep => buildStageSend_spec hs hstep)
  obtain ⟨hcan, hbuilt⟩ := buildStageRecvs_spec hrecvs
  split_ifs at h
  obtain rfl := Except.ok.inj h
  refine ⟨hsent.ready, List.rel_append (hb.posted.imp (fun _ _ hp => hp.keep hsent.extends_memory.keeps)) ?_⟩
  have hrank : mapRank u.inferToTrain (recvFromRank u stage) = sendRank := by
    rw [mapRank, Dict.getD, hmapped, Option.getD_some]
  refine .cons ⟨rfl, hsent.sends, ?_, ?_⟩ .nil
  · rw [stageRecvs, hrank]
    exact hcan
  · rw [stageRecvs, hrank]
    exact hbuilt

variable (u) in
def orderedPhases (s : StageOps) : List (List BuiltOp) :=
  if s.stageOffset = 0 then []
  else if computeTwoPhasePartition u.transferRank s.stageOffset u.worldSize = 0 then [s.sendOps, s.recvOps]
  else [s.recvOps, s.sendOps]

theorem stagePhases_eq_ok {s : StageOps} {phases : List (List BuiltOp)} (h : stagePhases u s = .ok phases) :
    phases = orderedPhases u s := by
  unfold stagePhases at h
  unfold orderedPhases
  split_ifs at h ⊢ <;> exact (Except.ok.inj h).symm

theorem preparePhases_spec {cast : Dtype → Dtype → α → α} {m : Memory α} {r : List (List BuiltOp) × Memory α}
    (h : preparePhases u cast m = .ok r) :
    ∃ (m' : Memory α) (stages : List StageOps), List.Forall₂ (StagePosted u m') (List.range u.worldSize) stages ∧
      r.1 = stages.flatMap (orderedPhases u) := by
  obtain ⟨_, hmap, h⟩ := Except.bind_eq_ok.mp h
  obtain ⟨b, hb, h⟩ := Except.bind_eq_ok.mp h
  obtain ⟨memory, -, h⟩ := Except.bind_eq_ok.mp h
  obtain ⟨phases, hphases, h⟩ := Except.bind_eq_ok.mp h
  obtain rfl := Except.ok.inj h
  have hbuilt : StagesBuilt (u := u) m (List.range u.worldSize) b :=
    Except.foldlM_induction (StagesBuilt (u := u) m) hb ⟨u.ready_init m, .nil⟩
      (fun _ _ _ _ _ hs hstep => buildStage_spec hmap hs hstep)
  refine ⟨b.workspace.memory, b.stages, hbuilt.posted, ?_⟩
  have hmapM : phases = b.stages.map (orderedPhases u) :=
    (Except.mapM_eq_map (fun s hs phases hp => stagePhases_eq_ok hp) hphases)
  rw [hmapM, List.flatMap_def]

end NcclColocateTransport

end Awex
