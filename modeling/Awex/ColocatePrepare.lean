import Awex.StreamSpec

namespace Awex.ColocateUpdate

variable {α : Type} (u : ColocateUpdate)

def sendStep (d : Dict ℕ (List CommunicationOperation)) (e : ℕ × List CommunicationOperation) :
    Dict ℕ (List CommunicationOperation) :=
  if mapRank u.trainToInfer e.1 = u.transferRank then d else d.set (mapRank u.trainToInfer e.1) e.2

def sendLists : Dict ℕ (List CommunicationOperation) :=
  u.sendTransferPlan.operations.entries.foldl u.sendStep .empty

def selfEntry (e : ℕ × List CommunicationOperation) : List CommunicationOperation :=
  if mapRank u.trainToInfer e.1 = u.transferRank then e.2 else []

def selfOps : List CommunicationOperation :=
  u.sendTransferPlan.operations.entries.flatMap u.selfEntry

def recvStep (d : Dict ℕ (List CommunicationOperation)) (e : ℕ × List CommunicationOperation) :
    Dict ℕ (List CommunicationOperation) :=
  match u.trainToInfer.get? e.1 with
  | some r => if r = u.transferRank then d else d.set r e.2
  | none => d

def recvLists : Dict ℕ (List CommunicationOperation) :=
  u.recvTransferPlan.operations.entries.foldl u.recvStep .empty

structure Sliceable : Prop where
  send : ∀ e ∈ u.sendTransferPlan.operations.entries, ∀ op ∈ e.2, u.CanSend op
  recv : ∀ e ∈ u.recvTransferPlan.operations.entries, ∃ r, u.trainToInfer.get? e.1 = some r ∧
    (r ≠ u.transferRank → ∀ op ∈ e.2, u.CanRecv op)

theorem lookupRank_eq_ok {ν : Type} {d : Dict ℕ ν} {rank : ℕ} {v : ν} :
    lookupRank d rank = .ok v ↔ d.get? rank = some v := by
  unfold lookupRank
  split <;> simp_all

variable {u}

section Cast

variable (cast : Dtype → Dtype → α → α)

theorem buildSends_exist {m₀ : Memory α} {w : Workspace α} (hw : u.Ready m₀ w)
    {ops : List CommunicationOperation} (h : ∀ op ∈ ops, u.CanSend op) :
    ∃ built w', buildEach (u.buildSendOp cast) ops w = .ok (built, w') ∧ u.Ready m₀ w' ∧
      w.memory.Extends w'.memory ∧ List.Forall₂ (u.SentAs cast m₀ w'.memory) ops built :=
  buildEach_exists (u.Ready m₀) (fun w w' => w.memory.Extends w'.memory)
    (fun w => u.SentAs cast m₀ w.memory) (fun w => .refl w.memory) (fun _ _ _ h h' => h.trans h')
    (fun _ _ _ _ hle h => h.keep u cast hle.keeps) ops
    (fun op hop _ hw => u.buildSendOp_exists cast hw (h op hop)) w hw

theorem sliceSends_exist {m₀ : Memory α} {w : Workspace α} (hw : u.Ready m₀ w)
    {ops : List CommunicationOperation} (h : ∀ op ∈ ops, u.CanSend op) :
    ∃ sliced w', buildEach u.sliceSendOp ops w = .ok (sliced, w') ∧ u.Ready m₀ w' ∧
      w.memory.Extends w'.memory ∧ List.Forall₂ (u.SlicedFor w'.memory) ops sliced :=
  buildEach_exists (u.Ready m₀) (fun w w' => w.memory.Extends w'.memory)
    (fun w => u.SlicedFor w.memory) (fun w => .refl w.memory) (fun _ _ _ h h' => h.trans h')
    (fun _ _ _ _ hle h => h.keep u hle.keeps) ops
    (fun op hop _ hw => u.sliceSendOp_exists hw (h op hop)) w hw

structure SendsProcessed (m₀ : Memory α) (done : List (ℕ × List CommunicationOperation))
    (s : SendOperations α) : Prop where
  ready : u.Ready m₀ s.workspace
  extends_memory : m₀.Extends s.workspace.memory
  sliced : List.Forall₂ (u.SlicedFor s.workspace.memory) (done.flatMap u.selfEntry) s.tensorsToCopy
  sends : Dict.Rel (u.SentAs cast m₀ s.workspace.memory) (done.foldl u.sendStep .empty) s.allSendP2pOps

theorem processSends_exist (m₀ : Memory α) (h : u.Sliceable) :
    ∃ s, u.sendTransferPlan.operations.entries.foldlM (u.processSend cast)
        ⟨⟨m₀, .empty⟩, [], .empty⟩ = .ok s ∧
      u.SendsProcessed cast m₀ u.sendTransferPlan.operations.entries s := by
  refine Except.foldlM_exists (u.SendsProcessed cast m₀) _ _
    ⟨u.ready_init m₀, .refl m₀, .nil, .empty _⟩ (fun done e rest s hsplit hs => ?_)
  have hcan : ∀ op ∈ e.2, u.CanSend op := h.send e (by simp [hsplit])
  unfold processSend
  dsimp only
  split_ifs with hself
  · obtain ⟨sliced, w, hw, hready, hext, hsliced⟩ := sliceSends_exist hs.ready hcan
    refine ⟨_, Except.bind_eq_ok.mpr ⟨_, hw, rfl⟩, hready, hs.extends_memory.trans hext, ?_, ?_⟩
    · rw [List.flatMap_append, List.flatMap_singleton, selfEntry, if_pos hself]
      exact List.rel_append (hs.sliced.imp (fun _ _ hp => hp.keep u hext.keeps)) hsliced
    · rw [List.foldl_append]
      simp only [List.foldl_cons, List.foldl_nil, sendStep, if_pos hself]
      exact hs.sends.mono (fun _ _ hp => hp.keep u cast hext.keeps)
  · obtain ⟨built, w, hw, hready, hext, hbuilt⟩ := buildSends_exist cast hs.ready hcan
    refine ⟨_, Except.bind_eq_ok.mpr ⟨_, hw, rfl⟩, hready, hs.extends_memory.trans hext, ?_, ?_⟩
    · rw [List.flatMap_append, List.flatMap_singleton, selfEntry, if_neg hself, List.append_nil]
      exact hs.sliced.imp (fun _ _ hp => hp.keep u hext.keeps)
    · rw [List.foldl_append]
      simp only [List.foldl_cons, List.foldl_nil, sendStep, if_neg hself]
      exact (hs.sends.mono (fun _ _ hp => hp.keep u cast hext.keeps)).set _ hbuilt

end Cast

def RecvsBuiltFor (u : ColocateUpdate) (lists : Dict ℕ (List CommunicationOperation))
    (d : Dict ℕ (List BuiltOp)) : Prop :=
  ∀ p, d.getD p [] = (lists.getD p []).map (u.recvBuilt p)

theorem processRecvs_exist (m : Memory α) (h : u.Sliceable) :
    ∃ d, u.recvTransferPlan.operations.entries.foldlM (u.processRecv m) .empty = .ok d ∧
      u.RecvsBuiltFor u.recvLists d := by
  refine Except.foldlM_exists (fun done d => u.RecvsBuiltFor (done.foldl u.recvStep .empty) d) _ _
    (fun _ => rfl) (fun done e rest d hsplit hd => ?_)
  obtain ⟨r, hr, hcan⟩ := h.recv e (by simp [hsplit])
  unfold processRecv
  rw [lookupRank_eq_ok.mpr hr]
  by_cases hself : r = u.transferRank
  · refine ⟨d, if_pos hself, ?_⟩
    rw [List.foldl_append]
    simpa only [List.foldl_cons, List.foldl_nil, recvStep, hr, if_pos hself] using hd
  · refine ⟨d.set r (e.2.map (u.recvBuilt r)), ?_, ?_⟩
    · change (if r = u.transferRank then _ else _) = _
      rw [if_neg hself, u.mapM_buildRecvOp (hcan hself)]
      rfl
    · rw [List.foldl_append]
      simp only [List.foldl_cons, List.foldl_nil, recvStep, hr, if_neg hself]
      intro p
      have hp := hd p
      simp only [Dict.getD, Dict.get?_set] at hp ⊢
      split_ifs with hrp
      · rw [← hrp]
        rfl
      · exact hp

theorem sliceable_of_oneShot {cast : Dtype → Dtype → α → α} {l : Link α} {o : Outcome α}
    (h : u.runOneShot cast l = .ok o) : u.Sliceable := by
  obtain ⟨r, h, -⟩ := Except.bind_eq_ok.mp h
  obtain ⟨sends, hsends, h⟩ := Except.bind_eq_ok.mp h
  obtain ⟨recvs, hrecvs, -⟩ := Except.bind_eq_ok.mp h
  constructor
  · intro e he op hop
    obtain ⟨s, s', hs⟩ := Except.foldlM_visits hsends he
    unfold processSend at hs
    dsimp only at hs
    split_ifs at hs
    · obtain ⟨r, hr, -⟩ := Except.bind_eq_ok.mp hs
      obtain ⟨w, e', he'⟩ := buildEach_visits hr hop
      exact u.canSend_of_slice he'
    · obtain ⟨r, hr, -⟩ := Except.bind_eq_ok.mp hs
      obtain ⟨w, built, hbuilt⟩ := buildEach_visits hr hop
      exact u.canSend_of_build cast hbuilt
  · intro e he
    obtain ⟨d, d', hd⟩ := Except.foldlM_visits hrecvs he
    obtain ⟨r, hr, hd⟩ := Except.bind_eq_ok.mp hd
    refine ⟨r, lookupRank_eq_ok.mp hr, fun hself op hop => ?_⟩
    rw [if_neg hself] at hd
    obtain ⟨built, hbuilt, -⟩ := Except.bind_eq_ok.mp hd
    obtain ⟨b, hb⟩ := Except.mapM_isOk.mp ⟨built, hbuilt⟩ op hop
    exact (u.buildRecvOp_eq_ok.mp hb).1

def SelfPaired (u : ColocateUpdate) : Prop :=
  ∀ e ∈ u.sendTransferPlan.operations.entries, mapRank u.trainToInfer e.1 = u.transferRank →
    ∀ op ∈ e.2, u.inferToTrain.get? u.transferRank = some op.sendRank

structure SplitOk (u : ColocateUpdate) (m₀ : Memory α) (ops : List CommunicationOperation)
    (lists : Dict ℕ (List CommunicationOperation)) (s : SplitSends α) : Prop where
  ready : u.Ready m₀ s.workspace
  extends_memory : m₀.Extends s.workspace.memory
  sliced : List.Forall₂ (u.SlicedFor s.workspace.memory) ops s.tensorsToCopy
  collected : s.localSelfRecvCollected = []
  perPeer : s.sendPerPeer = lists

theorem splitSelf_exists {m₀ : Memory α} {before : List CommunicationOperation}
    {lists : Dict ℕ (List CommunicationOperation)} {s : SplitSends α} (hs : u.SplitOk m₀ before lists s)
    {ops : List CommunicationOperation} (hcan : ∀ op ∈ ops, u.CanSend op)
    (hpaired : ∀ op ∈ ops, u.inferToTrain.get? u.transferRank = some op.sendRank) :
    ∃ s', ops.foldlM u.splitSelfOp s = .ok s' ∧ u.SplitOk m₀ (before ++ ops) lists s' := by
  refine Except.foldlM_exists (fun done s => u.SplitOk m₀ (before ++ done) lists s) s ops
    (by rwa [List.append_nil]) (fun done op rest s hsplit hs => ?_)
  have hop : op ∈ ops := by simp [hsplit]
  obtain ⟨e, w, hw, hready, hext, hsliced⟩ := u.sliceSendOp_exists hs.ready (hcan op hop)
  refine ⟨{ s with workspace := w, tensorsToCopy := s.tensorsToCopy ++ [e] }, ?_, hready,
    hs.extends_memory.trans hext, ?_, hs.collected, hs.perPeer⟩
  · have hown : (u.inferToTrain.get? u.transferRank).any (op.sendRank ≠ ·) = false := by
      simp [hpaired op hop]
    rw [splitSelfOp, hown]
    exact Except.bind_eq_ok.mpr ⟨_, hw, rfl⟩
  · rw [← List.append_assoc]
    exact List.rel_append (hs.sliced.imp (fun _ _ hp => hp.keep u hext.keeps)) (.cons hsliced .nil)

theorem splitSends_exist (m₀ : Memory α) (h : u.Sliceable) (hpaired : u.SelfPaired) :
    ∃ s, u.sendTransferPlan.operations.entries.foldlM u.splitSend ⟨⟨m₀, .empty⟩, [], [], .empty⟩ = .ok s ∧
      u.SplitOk m₀ u.selfOps u.sendLists s := by
  refine Except.foldlM_exists
    (fun done s => u.SplitOk m₀ (done.flatMap u.selfEntry) (done.foldl u.sendStep .empty) s) _ _
    ⟨u.ready_init m₀, .refl m₀, .nil, rfl, rfl⟩ (fun done e rest s hsplit hs => ?_)
  have he : e ∈ u.sendTransferPlan.operations.entries := by simp [hsplit]
  have hcan := h.send e he
  simp only [List.flatMap_append, List.flatMap_singleton, List.foldl_append, List.foldl_cons,
    List.foldl_nil]
  unfold splitSend selfEntry sendStep
  by_cases hself : mapRank u.trainToInfer e.1 = u.transferRank
  · simp only [hself, ↓reduceIte]
    exact splitSelf_exists hs hcan (hpaired e he hself)
  · have hfound : e.2.filter (fun op => u.sendParameters.get? op.sendShardMeta.name = none) = [] := by
      rw [List.filter_eq_nil_iff]
      intro op hop
      obtain ⟨p, hslice⟩ := hcan op hop
      simp [hslice.parameter]
    simp only [hself, ↓reduceIte, hfound, List.append_nil]
    exact ⟨_, rfl, hs.ready, hs.extends_memory, hs.sliced, hs.collected, by rw [hs.perPeer]; rfl⟩

theorem splitRecvs (h : u.Sliceable) :
    u.recvTransferPlan.operations.entries.foldlM u.splitRecv .empty = .ok u.recvLists := by
  obtain ⟨d, hd, rfl⟩ := Except.foldlM_exists
    (fun done d => d = done.foldl u.recvStep .empty) _ u.recvTransferPlan.operations.entries
    (f := u.splitRecv) rfl (fun done e rest d hsplit hd => by
      obtain ⟨r, hr, -⟩ := h.recv e (by simp [hsplit])
      refine ⟨_, Except.bind_eq_ok.mpr ⟨r, lookupRank_eq_ok.mpr hr, rfl⟩, ?_⟩
      rw [List.foldl_append, ← hd]
      simp only [List.foldl_cons, List.foldl_nil, recvStep, hr])
  exact hd

theorem mem_of_mem_chunk {β : Type} {stepSize chunkIdx : ℕ} {xs : List β} {x : β}
    (h : x ∈ chunk stepSize chunkIdx xs) : x ∈ xs := List.mem_of_mem_drop (List.mem_of_mem_take h)

section Chunk

variable (stepSize chunkIdx : ℕ)

theorem chunkSends_exist (cast : Dtype → Dtype → α → α) {m₀ : Memory α} {w : Workspace α}
    (hw : u.Ready m₀ w) (lists : Dict ℕ (List CommunicationOperation))
    (hcan : ∀ e ∈ lists.entries, ∀ op ∈ e.2, u.CanSend op) :
    ∃ s, lists.entries.foldlM (u.buildChunkSend cast stepSize chunkIdx) (w, .empty) = .ok s ∧
      u.Ready m₀ s.1 ∧ w.memory.Extends s.1.memory ∧
      ∀ p, List.Forall₂ (u.SentAs cast m₀ s.1.memory) (chunk stepSize chunkIdx (lists.getD p []))
        (s.2.getD p []) := by
  obtain ⟨s, hs, hready, hext, hbuilt⟩ := Except.foldlM_exists (f := u.buildChunkSend cast stepSize chunkIdx)
    (fun done s => u.Ready m₀ s.1 ∧ w.memory.Extends s.1.memory ∧ Dict.Collected (fun _ ops built =>
      List.Forall₂ (u.SentAs cast m₀ s.1.memory) (chunk stepSize chunkIdx ops) built) done s.2)
    (w, .empty) lists.entries ⟨hw, .refl _, .nil _⟩ (fun done e rest s hsplit hs => by
      obtain ⟨hready, hext, hbuilt⟩ := hs
      have hfresh := Dict.fresh_of_split lists hsplit
      unfold buildChunkSend
      split_ifs with hnil
      · exact ⟨s, rfl, hready, hext, hbuilt.skip hfresh (by rw [hnil]; exact .nil)⟩
      · obtain ⟨built, w', hw', hready', hext', hlist⟩ := buildSends_exist cast hready
          (fun op hop => hcan e (by simp [hsplit]) op (mem_of_mem_chunk hop))
        refine ⟨_, Except.bind_eq_ok.mpr ⟨_, hw', rfl⟩, hready', hext.trans hext', ?_⟩
        exact (hbuilt.mono (fun _ _ _ hp => hp.imp (fun _ _ h => h.keep u cast hext'.keeps))).set
          hfresh hlist)
  exact ⟨s, hs, hready, hext, hbuilt.getD (fun _ => by rw [chunk, List.drop_nil, List.take_nil]; exact .nil)⟩

theorem chunkRecvs_exist (m : Memory α) (lists : Dict ℕ (List CommunicationOperation))
    (hcan : ∀ e ∈ lists.entries, ∀ op ∈ e.2, u.CanRecv op) :
    ∃ d, lists.entries.foldlM (u.buildChunkRecv stepSize chunkIdx m) .empty = .ok d ∧
      ∀ p, d.getD p [] = (chunk stepSize chunkIdx (lists.getD p [])).map (u.recvBuilt p) := by
  obtain ⟨d, hd, hbuilt⟩ := Except.foldlM_exists (f := u.buildChunkRecv stepSize chunkIdx m)
    (fun done d => Dict.Collected (fun p ops built =>
      built = (chunk stepSize chunkIdx ops).map (u.recvBuilt p)) done d)
    .empty lists.entries (.nil _) (fun done e rest d hsplit hd => by
      have hfresh := Dict.fresh_of_split lists hsplit
      unfold buildChunkRecv
      split_ifs with hnil
      · exact ⟨d, rfl, hd.skip hfresh (by rw [hnil]; rfl)⟩
      · refine ⟨d.set e.1 ((chunk stepSize chunkIdx e.2).map (u.recvBuilt e.1)), ?_, hd.set hfresh rfl⟩
        rw [u.mapM_buildRecvOp
          (fun op hop => hcan e (by simp [hsplit]) op (mem_of_mem_chunk hop))]
        rfl)
  exact ⟨d, hd, hbuilt.getD (fun _ => by rw [chunk, List.drop_nil, List.take_nil]; rfl)⟩

end Chunk

end Awex.ColocateUpdate
