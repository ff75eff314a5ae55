import Awex.Delivery
import Awex.LinkSpec

namespace Awex

variable {α : Type}

def stageRecv (opDist : P2POp) (memory : Memory α) : P2POp × Memory α :=
  let (tensor, memory) := memory.contiguous opDist.tensor
  ({ opDist with tensor := tensor }, memory)

section Cast

variable (cast : Dtype → Dtype → α → α)

/-- One round of the reader's `_send_recv_one_by_one`. -/
def recvOne (l : Link α) (opDist : P2POp) : Except TransferError (Link α) := do
  let (staged, memory) := stageRecv opDist l.memory
  let l ← Link.post { l with memory := memory } staged
  if opDist.tensor.IsContiguous then .ok l
  else do
    let memory ← l.memory.copy_ cast opDist.tensor staged.tensor
    .ok { l with memory := memory }

/-- A slice gets what was received for it before the update returns. -/
def CopiedBack (pairs : List (Tensor × Tensor)) (received : Memory α) (v target : Tensor) : Prop :=
  ∃ before after m m', pairs = before ++ (v, target) :: after ∧
    syncNonContiguousTensorPairs cast before received = .ok m ∧ m.copy_ cast v target = .ok m' ∧
      m'.read v = received.read target

theorem Memory.copy_read (m : Memory α) {target source : Tensor} (hshape : source.shape = target.shape)
    (hdtype : source.dtype = target.dtype) (hn : target.addresses.Nodup) :
    ∃ m', m.copy_ cast target source = .ok m' ∧ m'.read target = m.read source := by
  have hzip : (Box.indices target.shape).map (fun x => (target.locate x, m.cells (source.locate x))) =
      target.addresses.zip (m.read source) := by
    rw [Memory.read, Tensor.addresses, Tensor.addresses, hshape, List.map_map, List.zip_map']
    rfl
  refine ⟨_, m.copy_same cast target source hshape hdtype, ?_⟩
  rw [hzip]
  apply Store.map_writeAll_zip m.cells _ _ hn
  rw [target.length_addresses, m.length_read, Tensor.numel, Tensor.numel, hshape]

end Cast

theorem Memory.contiguous_dense (m : Memory α) (t : Tensor) : (m.contiguous t).1.IsContiguous := by
  unfold contiguous
  split_ifs with hc
  · exact hc
  · exact Strided.dense_rowMajor t.shape

theorem Memory.contiguous_shape (m : Memory α) (t : Tensor) :
    (m.contiguous t).1.shape = t.shape ∧ (m.contiguous t).1.dtype = t.dtype := by
  unfold contiguous
  split_ifs
  · exact ⟨rfl, rfl⟩
  · exact ⟨Strided.sizes_rowMajor t.shape, rfl⟩

theorem stageRecv_contiguous (opDist : P2POp) (m : Memory α) : (stageRecv opDist m).1.tensor.IsContiguous :=
  m.contiguous_dense opDist.tensor

theorem recvOne_eq (cast : Dtype → Dtype → α → α) (l : Link α) (opDist : P2POp) : recvOne cast l opDist =
    Link.post { l with memory := (stageRecv opDist l.memory).2 } (stageRecv opDist l.memory).1 >>= fun l₁ =>
      if opDist.tensor.IsContiguous then .ok l₁
      else l₁.memory.copy_ cast opDist.tensor (stageRecv opDist l.memory).1.tensor >>= fun memory =>
        .ok { l₁ with memory := memory } := rfl

theorem recvOne_read (cast : Dtype → Dtype → α → α) {l : Link α} {opDist : P2POp} (hop : opDist.op = .recv)
    (hn : opDist.tensor.addresses.Nodup) {msg : Message α} {rest : List (Message α)}
    (hq : l.inbox opDist.peer = msg :: rest) (ha : Accepts (stageRecv opDist l.memory).1.tensor msg) :
    ∃ l', recvOne cast l opDist = .ok l' ∧ l'.memory.read opDist.tensor = msg.data := by
  obtain ⟨l₁, hpost, hread⟩ : ∃ l₁ : Link α,
      Link.post { l with memory := (stageRecv opDist l.memory).2 } (stageRecv opDist l.memory).1 = .ok l₁ ∧
        l₁.memory.read (stageRecv opDist l.memory).1.tensor = msg.data := by
    have hrecv : (stageRecv opDist l.memory).1.op = .recv := hop
    refine ⟨_, (post_recv_eq_ok hrecv).mpr ⟨msg, rest, hq, ha, rfl⟩, ?_⟩
    rw [Tensor.wire_eq_addresses ha.contiguous]
    apply Store.map_writeAll_zip _ _ _ ha.contiguous.addresses_nodup
    rw [Tensor.length_addresses, ha.length_eq]
  rw [recvOne_eq, hpost, Except.ok_bind]
  by_cases hc : opDist.tensor.IsContiguous
  · have hsame : (stageRecv opDist l.memory).1.tensor = opDist.tensor := congrArg Prod.fst (if_pos hc)
    exact ⟨l₁, if_pos hc, hsame ▸ hread⟩
  · obtain ⟨hshape, hdtype⟩ := l.memory.contiguous_shape opDist.tensor
    obtain ⟨m, hcopy, hback⟩ := l₁.memory.copy_read cast hshape hdtype hn
    refine ⟨{ l₁ with memory := m }, ?_, hback.trans hread⟩
    rw [if_neg hc]
    exact Except.bind_eq_ok.mpr ⟨m, hcopy, rfl⟩

theorem ncclBuildRecvOps_slices (parameters : Dict String Parameter) (plan : TransferPlan) (memory : Memory α)
    (h : ∀ e ∈ visited plan.operations, ∃ p v, RecvSlice parameters e.2 p v) :
    ∃ posted, ncclBuildRecvOps parameters plan false memory = .ok posted ∧
      List.Forall₂ (fun e p2p => p2p.op = .recv ∧ p2p.peer = e.1 ∧ ∃ p, RecvSlice parameters e.2 p p2p.tensor)
        (visited plan.operations) (sendRecvOneByOne posted.p2pOpList posted.recvTrajList) := by
  simp only [ncclBuildRecvOps, buildLoop_eq]
  obtain ⟨posted, hposted, hlength, hslices⟩ := emitAll_exists (emitRecv parameters false)
    (fun done (s : RecvOps α) => s.recvTrajList.length = s.p2pOpList.length ∧
      List.Forall₂ (fun e p2p => p2p.op = .recv ∧ p2p.peer = e.1 ∧ ∃ p, RecvSlice parameters e.2 p p2p.tensor)
        done s.p2pOpList) ⟨memory, [], [], []⟩ (visited plan.operations) ⟨rfl, .nil⟩
    (fun done e s he hs => by
      obtain ⟨p, v, hslice⟩ := h e he
      refine ⟨_, emitRecv_eq_ok.mpr ⟨p, v, hslice.parameter, hslice.index, rfl⟩, ?_, ?_⟩
      · simp [hs.1]
      · exact List.rel_append hs.2 (.cons ⟨rfl, rfl, p, hslice⟩ .nil))
  refine ⟨posted, hposted, ?_⟩
  rwa [sendRecvOneByOne, List.map_snd_zip (Nat.le_of_eq hlength.symm)]

theorem RecvsBuilt.copiedBack (cast : Dtype → Dtype → α → α) {parameters : Dict String Parameter}
    {memory : Memory α} {done : List (ℕ × CommunicationOperation)} {posted : RecvOps α} {landings : List Landing}
    (h : RecvsBuilt parameters memory done posted landings) {l : Landing} (hl : l ∈ landings)
    (hc : ¬ l.view.IsContiguous) (hn : l.view.addresses.Nodup) (received : Memory α) :
    CopiedBack cast posted.nonContiguousTensorPairs received l.view l.target := by
  obtain ⟨before, after, rfl⟩ := List.append_of_mem hl
  have hok : ∀ l' ∈ before, LandingOk parameters l' := fun l' hl' => h.ok l' (List.mem_append_left _ hl')
  have hpair : l.stagedPair = [(l.view, l.target)] := if_neg hc
  have hpairs : posted.nonContiguousTensorPairs = before.flatMap Landing.stagedPair ++
      (l.view, l.target) :: after.flatMap Landing.stagedPair := by
    rw [h.pairs, List.flatMap_append, List.flatMap_cons, hpair]
    rfl
  have hsync := syncNonContiguousTensorPairs_eq cast before hok received _ (fun _ _ _ => rfl)
  obtain ⟨m', hcopy, hread⟩ := (received.store (copiesBack received.cells before)).copy_read cast
    (h.ok l hl).shape_eq (h.ok l hl).dtype_eq hn
  refine ⟨_, _, _, m', hpairs, hsync, hcopy, hread.trans ?_⟩
  have hwrites : InferenceOnly (copiesBack received.cells before) := by
    intro w hw
    obtain ⟨l', hl', -, y, -, rfl⟩ := mem_copiesBack.mp hw
    exact (hok l' hl').view_buffer
  exact received.store_read _ hwrites l.target (staging_not_inference ((h.ok l hl).staged hc))

end Awex
