import Awex.Interleave
import Awex.SliceSpec

namespace Awex

variable {α : Type}

def SentFor (parameters : Dict String Parameter) (m : Memory α) (e : ℕ × CommunicationOperation)
    (p2p : P2POp) : Prop :=
  p2p.op = .send ∧ p2p.peer = e.1 ∧ ∃ p v, SendSlice parameters e.2 p v ∧ Carries m p2p.tensor v

theorem SentFor.mono {parameters : Dict String Parameter} {m m' : Memory α}
    {e : ℕ × CommunicationOperation} {p2p : P2POp} (h : SentFor parameters m e p2p)
    (hm : m.Extends m') : SentFor parameters m' e p2p := by
  obtain ⟨hop, hpeer, p, v, hslice, hcarries⟩ := h
  exact ⟨hop, hpeer, p, v, hslice, hcarries.mono hm (Parameter.training_live hslice.index m)⟩

structure SendsBuilt (parameters : Dict String Parameter) (memory : Memory α)
    (done : List (ℕ × CommunicationOperation)) (s : SendOps α) : Prop where
  extends_memory : memory.Extends s.workspace.memory
  context : ContextOk parameters s.workspace
  posted : List.Forall₂ (SentFor parameters s.workspace.memory) done s.p2pOpList

theorem SendsBuilt.step {parameters : Dict String Parameter} {memory : Memory α} {useBatch : Bool}
    {done : List (ℕ × CommunicationOperation)} {s : SendOps α} (h : SendsBuilt parameters memory done s)
    (e : ℕ × CommunicationOperation) {p : Parameter} {v : Tensor} (hslice : SendSlice parameters e.2 p v) :
    ∃ s', emitSend parameters (-1) useBatch e.1 e.2 s = .ok s' ∧
      SendsBuilt parameters memory (done ++ [e]) s' := by
  obtain ⟨t, w, ht, hext, hcontext, hcarries, -⟩ :=
    sliceTensor_train h.context hslice.parameter hslice.index
  refine ⟨_, emitSend_eq_ok.mpr ⟨p, t, w, hslice.parameter, ht, rfl⟩, h.extends_memory.trans hext,
    hcontext, ?_⟩
  exact List.rel_append (h.posted.imp (fun _ _ hp => hp.mono hext))
    (.cons ⟨rfl, rfl, p, v, hslice, hcarries⟩ .nil)

theorem ncclBuildSendOps_spec (parameters : Dict String Parameter) (plan : TransferPlan)
    (useBatch : Bool) (memory : Memory α)
    (h : ∀ e ∈ visited plan.operations, ∃ p v, SendSlice parameters e.2 p v) :
    ∃ sent, ncclBuildSendOps parameters plan (-1) useBatch memory = .ok sent ∧
      SendsBuilt parameters memory (visited plan.operations) sent := by
  simp only [ncclBuildSendOps, buildLoop_eq]
  refine emitAll_exists _ (SendsBuilt parameters memory) _ _
    ⟨.refl _, contextOk_empty parameters memory, .nil⟩ (fun done e s he hs => ?_)
  obtain ⟨p, v, hslice⟩ := h e he
  exact hs.step e hslice

/-- A posted receive: the slice of the inference parameter, and the tensor that the message lands
in. -/
structure Landing where
  peer : ℕ
  op : CommunicationOperation
  view : Tensor
  target : Tensor

def Landing.entry (l : Landing) : ℕ × CommunicationOperation := (l.peer, l.op)

def Landing.p2p (l : Landing) : P2POp := ⟨.recv, l.target, l.peer⟩

def Landing.stagedPair (l : Landing) : List (Tensor × Tensor) :=
  if l.view.IsContiguous then [] else [(l.view, l.target)]

/-- A message lands in the slice itself if that is contiguous, and otherwise in a tensor of its
own. -/
structure LandingOk (parameters : Dict String Parameter) (l : Landing) : Prop where
  slice : ∃ p, RecvSlice parameters l.op p l.view
  contiguous : l.target.IsContiguous
  shape_eq : l.target.shape = l.view.shape
  dtype_eq : l.target.dtype = l.view.dtype
  direct : l.view.IsContiguous → l.target = l.view
  staged : ¬ l.view.IsContiguous → ∃ n, l.target.buffer = .staging n

structure RecvsBuilt (parameters : Dict String Parameter) (memory : Memory α)
    (done : List (ℕ × CommunicationOperation)) (s : RecvOps α) (landings : List Landing) : Prop where
  extends_memory : memory.Extends s.memory
  entries : landings.map Landing.entry = done
  posted : s.p2pOpList = landings.map Landing.p2p
  pairs : s.nonContiguousTensorPairs = landings.flatMap Landing.stagedPair
  ok : ∀ l ∈ landings, LandingOk parameters l
  live : ∀ l ∈ landings, l.target.Live s.memory
  apart : landings.Pairwise (fun l l' => ∀ n, l.target.buffer = .staging n →
    l'.target.buffer ≠ .staging n)

theorem RecvsBuilt.step {parameters : Dict String Parameter} {memory : Memory α}
    {done : List (ℕ × CommunicationOperation)} {s : RecvOps α} {landings : List Landing}
    (h : RecvsBuilt parameters memory done s landings) (e : ℕ × CommunicationOperation) {p : Parameter}
    {v : Tensor} (hslice : RecvSlice parameters e.2 p v) :
    ∃ s', emitRecv parameters true e.1 e.2 s = .ok s' ∧
      RecvsBuilt parameters memory (done ++ [e]) s'
        (landings ++ [⟨e.1, e.2, v, (s.memory.contiguous v).1⟩]) := by
  have hlive := Parameter.inference_live hslice.index s.memory
  obtain ⟨hext, hcarries⟩ := s.memory.contiguous_spec v hlive
  have hdirect : v.IsContiguous → (s.memory.contiguous v).1 = v := fun hc => by
    rw [Memory.contiguous, if_pos hc]
  have hfresh : ¬ v.IsContiguous → (s.memory.contiguous v).1.buffer = .staging s.memory.staged := by
    intro hc
    rw [Memory.contiguous, if_neg hc]
    rfl
  refine ⟨_, emitRecv_eq_ok.mpr ⟨p, v, hslice.parameter, hslice.index, rfl⟩, ?_⟩
  simp only [recvTarget, ↓reduceIte]
  refine ⟨h.extends_memory.trans hext, ?_, ?_, ?_, ?_, ?_, ?_⟩
  · rw [List.map_append, h.entries]
    rfl
  · rw [List.map_append, h.posted]
    rfl
  · rw [List.flatMap_append, h.pairs, List.flatMap_singleton, Awex.stagedPair, Landing.stagedPair]
    by_cases hc : v.IsContiguous <;> simp [hc]
  · intro l hl
    rcases List.mem_append.mp hl with hl | hl
    · exact h.ok l hl
    · obtain rfl := List.mem_singleton.mp hl
      exact ⟨⟨p, hslice⟩, hcarries.contiguous, hcarries.shape_eq, hcarries.dtype_eq, hdirect,
        fun hc => ⟨_, hfresh hc⟩⟩
  · intro l hl
    rcases List.mem_append.mp hl with hl | hl
    · exact (h.live l hl).mono hext
    · obtain rfl := List.mem_singleton.mp hl
      exact hcarries.live
  · refine List.pairwise_append.mpr ⟨h.apart, List.pairwise_singleton _ _, ?_⟩
    intro l hl l' hl' n hn hn'
    obtain rfl := List.mem_singleton.mp hl'
    by_cases hc : v.IsContiguous
    · simp only [hdirect hc] at hn'
      rw [(Tensor.index_buffer hslice.index).1] at hn'
      simp [Parameter.inference] at hn'
    · have hlt := h.live l hl n hn
      simp only [hfresh hc] at hn'
      have hn' := Buffer.staging.inj hn'
      omega

theorem ncclBuildRecvOps_spec (parameters : Dict String Parameter) (plan : TransferPlan)
    (memory : Memory α) (h : ∀ e ∈ visited plan.operations, ∃ p v, RecvSlice parameters e.2 p v) :
    ∃ posted landings, ncclBuildRecvOps parameters plan true memory = .ok posted ∧
      RecvsBuilt parameters memory (visited plan.operations) posted landings := by
  simp only [ncclBuildRecvOps, buildLoop_eq]
  obtain ⟨posted, hposted, landings, hbuilt⟩ := emitAll_exists (emitRecv parameters true)
    (fun done s => ∃ landings, RecvsBuilt parameters memory done s landings) ⟨memory, [], [], []⟩
    (visited plan.operations) ⟨[], .refl _, rfl, rfl, rfl, by simp, by simp, .nil⟩
    (fun done e s he hs => by
      obtain ⟨landings, hs⟩ := hs
      obtain ⟨p, v, hslice⟩ := h e he
      obtain ⟨s', hs', hbuilt⟩ := hs.step e hslice
      exact ⟨s', hs', _, hbuilt⟩)
  exact ⟨posted, landings, hposted, hbuilt⟩

end Awex
