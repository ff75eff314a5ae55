import Awex.ChunkedTransfer

namespace Awex.ColocateUpdate

variable {α : Type} (u : ColocateUpdate)

section Cast

variable (cast : Dtype → Dtype → α → α)

def oneShotHandover (m : Memory α) :
    Except TransferError (Handed × List (CommunicationOperation × CommunicationOperation) × Memory α) := do
  validateRankMappings u.trainToInfer u.inferToTrain
  u.buildOneShot cast m

def startChunks (m : Memory α) : Except TransferError (ChunkStart α) := do
  validateRankMappings u.trainToInfer u.inferToTrain
  u.splitPlans cast m

/-- A chunk up to the call of `execute_recursive_partition_stream_transfer`. -/
def chunkHandover (stepSize chunkIdx : ℕ) (l : Link α) : Except TransferError Handed := do
  let c ← u.startChunks cast l.memory
  let s ← u.runChunks cast stepSize chunkIdx c l
  let (handed, _) ← u.buildChunk cast stepSize c.sendPerPeer c.recvPerPeer c.localSelfRecvBuilt
    ⟨s.link.memory, s.sliceContext⟩ chunkIdx
  .ok handed

end Cast

structure Slices : Prop where
  send : ∀ e ∈ u.sendTransferPlan.operations.entries, ∀ op ∈ e.2, u.CanSend op
  recv : ∀ e ∈ u.recvTransferPlan.operations.entries, ∀ op ∈ e.2, u.CanRecv op

structure Started (m : Memory α) (c : ChunkStart α) : Prop where
  sends : c.sendPerPeer = u.sendLists
  recvs : c.recvPerPeer = u.recvLists
  collected : c.localSelfRecvBuilt = []
  ready : u.Ready m c.workspace

variable {u} {cast : Dtype → Dtype → α → α} {m : Memory α}

theorem Slices.sliceable (h : u.Slices) (hmapped : ∀ e ∈ u.recvTransferPlan.operations.entries,
    ∃ r, u.trainToInfer.get? e.1 = some r) : u.Sliceable :=
  ⟨h.send, fun e he => (hmapped e he).imp (fun _ hr => ⟨hr, fun _ => h.recv e he⟩)⟩

theorem Slices.sliceable_of_oneShot (h : u.Slices)
    {r : Handed × List (CommunicationOperation × CommunicationOperation) × Memory α}
    (hr : u.oneShotHandover cast m = .ok r) : u.Sliceable := by
  apply h.sliceable
  intro e he
  obtain ⟨_, -, hr⟩ := Except.bind_eq_ok.mp hr
  obtain ⟨sends, -, hr⟩ := Except.bind_eq_ok.mp hr
  obtain ⟨recvs, hrecvs, -⟩ := Except.bind_eq_ok.mp hr
  obtain ⟨d, d', hd⟩ := Except.foldlM_visits hrecvs he
  obtain ⟨p, hp, -⟩ := Except.bind_eq_ok.mp hd
  exact ⟨p, lookupRank_eq_ok.mp hp⟩

theorem Slices.sliceable_of_start (h : u.Slices) {c : ChunkStart α} (hc : u.startChunks cast m = .ok c) :
    u.Sliceable := by
  apply h.sliceable
  intro e he
  obtain ⟨_, -, hc⟩ := Except.bind_eq_ok.mp hc
  obtain ⟨split, -, hc⟩ := Except.bind_eq_ok.mp hc
  obtain ⟨recvs, hrecvs, -⟩ := Except.bind_eq_ok.mp hc
  obtain ⟨d, d', hd⟩ := Except.foldlM_visits hrecvs he
  obtain ⟨p, hp, -⟩ := Except.bind_eq_ok.mp hd
  exact ⟨p, lookupRank_eq_ok.mp hp⟩

theorem oneShotHandover_spec (hs : u.Sliceable)
    {r : Handed × List (CommunicationOperation × CommunicationOperation) × Memory α}
    (hr : u.oneShotHandover cast m = .ok r) :
    validateRankMappings u.trainToInfer u.inferToTrain = .ok () ∧
      ∃ m', u.HandedFor cast m m' u.toPeer u.fromPeer r.1 := by
  obtain ⟨s, hsends, hprocessed⟩ := processSends_exist cast m hs
  obtain ⟨d, hrecvs, hbuilt⟩ := processRecvs_exist s.workspace.memory hs
  obtain ⟨_, hvalid, hr⟩ := Except.bind_eq_ok.mp hr
  rw [buildOneShot, hsends, Except.ok_bind, hrecvs, Except.ok_bind] at hr
  obtain ⟨copied, -, hr⟩ := Except.bind_eq_ok.mp hr
  obtain rfl := Except.ok.inj hr
  exact ⟨hvalid, s.workspace.memory, hprocessed.sends, hbuilt⟩

theorem startChunks_spec (hs : u.Sliceable) (hp : u.SelfPaired) {c : ChunkStart α}
    (hc : u.startChunks cast m = .ok c) :
    validateRankMappings u.trainToInfer u.inferToTrain = .ok () ∧ u.Started m c := by
  obtain ⟨s, hsends, hsplit⟩ := splitSends_exist m hs hp
  obtain ⟨_, hvalid, hc⟩ := Except.bind_eq_ok.mp hc
  rw [splitPlans, hsends, Except.ok_bind, splitRecvs hs, Except.ok_bind, hsplit.collected] at hc
  obtain ⟨built, hbuilt, hc⟩ := Except.bind_eq_ok.mp hc
  obtain rfl := Except.ok.inj hbuilt
  obtain ⟨⟨copies, memory⟩, hcopied, hc⟩ := Except.bind_eq_ok.mp hc
  obtain rfl := Except.ok.inj hc
  rw [u.executeSelfCopies_eq cast hsplit.extends_memory.keeps hsplit.sliced, Except.map_eq_ok] at hcopied
  obtain ⟨plan, hplan, heq⟩ := hcopied
  obtain ⟨-, rfl⟩ := Prod.mk.inj heq
  exact ⟨hvalid, hsplit.perPeer, rfl, rfl, hsplit.ready.store (u.selfPlan_inferenceOnly cast hplan)⟩

section Chunks

variable (hs : u.Sliceable) (hk : u.SendKeyed) {c : ChunkStart α} (hstarted : u.Started m c) (stepSize : ℕ)

include hs hstarted

theorem buildChunk_spec {w : Workspace α} (hw : u.Ready m w) (chunkIdx : ℕ) :
    ∃ r, u.buildChunk cast stepSize c.sendPerPeer c.recvPerPeer c.localSelfRecvBuilt w chunkIdx = .ok r ∧
      u.HandedFor cast m r.2.memory (fun p => chunk stepSize chunkIdx (u.toPeer p))
        (fun p => chunk stepSize chunkIdx (u.fromPeer p)) r.1 := by
  obtain ⟨w', hsends, -, -, hsent⟩ :=
    chunkSends_exist stepSize chunkIdx cast hw u.sendLists (canSend_sendLists hs)
  obtain ⟨d, hrecvs, hbuilt⟩ :=
    chunkRecvs_exist stepSize chunkIdx w'.1.memory u.recvLists (canRecv_recvLists hs)
  refine ⟨(⟨w'.2, d⟩, w'.1), ?_, hsent, hbuilt⟩
  rw [buildChunk, hstarted.sends, hstarted.recvs, hstarted.collected, hsends, Except.ok_bind]
  dsimp only
  rw [hrecvs, Except.ok_bind]
  split_ifs <;> rfl

include hk

theorem runChunks_ready {n : ℕ} {l : Link α} {s : ChunkState α} (h : u.runChunks cast stepSize n c l = .ok s) :
    u.Ready m ⟨s.link.memory, s.sliceContext⟩ := by
  rw [runChunks, hstarted.sends, hstarted.recvs, hstarted.collected] at h
  exact (chunks_done cast hs hk stepSize n hstarted.ready rfl h).ready

variable (cast) in
theorem runChunks_exist {n : ℕ} (h : ∀ k < n, ∀ p, 0 < timesWalked u.worldSize p u.transferRank →
    ∀ op ∈ chunk stepSize k (u.fromPeer p), (u.recvView op).IsContiguous) :
    ∃ inbox s, u.runChunks cast stepSize n c ⟨m, inbox, fun _ => []⟩ = .ok s := by
  let msg : ℕ → CommunicationOperation → Message α :=
    fun _ op => ⟨(u.recvView op).dtype, m.read (u.recvView op)⟩
  let inbox : ℕ → List (Message α) := fun p => (List.range n).flatMap (fun k =>
    again (timesWalked u.worldSize p u.transferRank) ((chunk stepSize k (u.fromPeer p)).map (msg p)))
  have haccept : ∀ k < n, u.AllAccepted msg (fun p => chunk stepSize k (u.fromPeer p)) := by
    intro k hkn p hp op hop
    exact ⟨h k hkn p hp op hop, rfl, m.length_read _⟩
  obtain ⟨s, hrun, -⟩ := chunks_complete cast hs hk stepSize n
    (s := ⟨c.workspace.sliceContext, [], ⟨c.workspace.memory, inbox, fun _ => []⟩⟩) hstarted.ready rfl msg haccept
    (fun _ => []) (fun p => (List.append_nil _).symm)
  refine ⟨inbox, s, ?_⟩
  rw [runChunks, hstarted.sends, hstarted.recvs, hstarted.collected]
  exact hrun

end Chunks

theorem chunkHandover_spec (hs : u.Sliceable) (hk : u.SendKeyed) (hp : u.SelfPaired) {stepSize chunkIdx : ℕ}
    {l : Link α} {handed : Handed} (h : u.chunkHandover cast stepSize chunkIdx l = .ok handed) :
    ∃ m', u.HandedFor cast l.memory m' (fun p => chunk stepSize chunkIdx (u.toPeer p))
      (fun p => chunk stepSize chunkIdx (u.fromPeer p)) handed := by
  obtain ⟨c, hc, h⟩ := Except.bind_eq_ok.mp h
  obtain ⟨s, hrun, h⟩ := Except.bind_eq_ok.mp h
  obtain ⟨-, hstarted⟩ := startChunks_spec hs hp hc
  obtain ⟨r, hr, hhanded⟩ := buildChunk_spec hs hstarted stepSize (runChunks_ready hs hk hstarted stepSize hrun) chunkIdx
  rw [hr, Except.ok_bind] at h
  obtain rfl := Except.ok.inj h
  exact ⟨r.2.memory, hhanded⟩

theorem chunkHandover_exists (hs : u.Sliceable) (hk : u.SendKeyed) (hp : u.SelfPaired) {c : ChunkStart α}
    (hc : u.startChunks cast m = .ok c) (stepSize chunkIdx : ℕ)
    (h : ∀ k < chunkIdx, ∀ p, 0 < timesWalked u.worldSize p u.transferRank →
      ∀ op ∈ chunk stepSize k (u.fromPeer p), (u.recvView op).IsContiguous) :
    ∃ inbox handed, u.chunkHandover cast stepSize chunkIdx ⟨m, inbox, fun _ => []⟩ = .ok handed := by
  obtain ⟨-, hstarted⟩ := startChunks_spec hs hp hc
  obtain ⟨inbox, s, hrun⟩ := runChunks_exist cast hs hk hstarted stepSize h
  obtain ⟨r, hr, -⟩ := buildChunk_spec hs hstarted stepSize (runChunks_ready hs hk hstarted stepSize hrun) chunkIdx
  exact ⟨inbox, r.1, Except.bind_eq_ok.mpr ⟨c, hc, Except.bind_eq_ok.mpr ⟨s, hrun,
    Except.bind_eq_ok.mpr ⟨r, hr, rfl⟩⟩⟩⟩

end Awex.ColocateUpdate
