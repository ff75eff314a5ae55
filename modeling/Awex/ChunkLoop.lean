import Awex.BuildLoop
import Awex.LocalCopies
import Awex.TransferSpec

namespace Awex

variable {α : Type}

def Memory.SameTensors (m m' : Memory α) : Prop := ∀ a : Address, (∀ n, a.1 ≠ .staging n) → m.cells a = m'.cells a

theorem Memory.Extends.sameTensors {m m' : Memory α} (h : m.Extends m') : m.SameTensors m' :=
  fun a ha => (h.cells_eq a (fun n hn => absurd hn (ha n))).symm

theorem Memory.SameTensors.trans {m₁ m₂ m₃ : Memory α} (h : m₁.SameTensors m₂) (h' : m₂.SameTensors m₃) :
    m₁.SameTensors m₃ := fun a ha => (h a ha).trans (h' a ha)

theorem Memory.SameTensors.store {m m' : Memory α} (h : m.SameTensors m') (ws : List (Address × α)) :
    (m.store ws).SameTensors (m'.store ws) :=
  fun a ha => Store.writeAll_congr_cells m.cells m'.cells ws a (h a ha)

theorem chunk_nil {β : Type} (stepSize chunkIdx : ℕ) :
    ColocateUpdate.chunk stepSize chunkIdx ([] : List β) = [] := by
  rw [ColocateUpdate.chunk, List.drop_nil, List.take_nil]

namespace ColocateUpdate

variable (u : ColocateUpdate) (cast : Dtype → Dtype → α → α)

def toPeer (p : ℕ) : List CommunicationOperation := u.sendLists.getD p []

def fromPeer (p : ℕ) : List CommunicationOperation := u.recvLists.getD p []

def SendKeyed : Prop :=
  ∀ e ∈ u.sendTransferPlan.operations.entries, ∀ op ∈ e.2, op.recvRank = e.1

theorem sendLists_get? {p : ℕ} {ops : List CommunicationOperation} (h : u.sendLists.get? p = some ops) :
    ∃ e ∈ u.sendTransferPlan.operations.entries,
      e.2 = ops ∧ mapRank u.trainToInfer e.1 = p ∧ p ≠ u.transferRank := by
  refine (Dict.get?_foldl_of (fun e q v => e.2 = v ∧ mapRank u.trainToInfer e.1 = q ∧
    q ≠ u.transferRank) (fun d e q v hq => ?_) _ _ h).resolve_left (by simp)
  rw [sendStep] at hq
  split_ifs at hq with hself
  · exact .inl hq
  · rw [Dict.get?_set] at hq
    split_ifs at hq with hkey
    · exact .inr ⟨Option.some.inj hq, hkey, hkey ▸ hself⟩
    · exact .inl hq

theorem recvLists_get? {p : ℕ} {ops : List CommunicationOperation} (h : u.recvLists.get? p = some ops) :
    ∃ e ∈ u.recvTransferPlan.operations.entries,
      e.2 = ops ∧ u.trainToInfer.get? e.1 = some p ∧ p ≠ u.transferRank := by
  refine (Dict.get?_foldl_of (fun e q v => e.2 = v ∧ u.trainToInfer.get? e.1 = some q ∧
    q ≠ u.transferRank) (fun d e q v hq => ?_) _ _ h).resolve_left (by simp)
  unfold recvStep at hq
  cases hr : u.trainToInfer.get? e.1 with
  | none => exact .inl (by simpa [hr] using hq)
  | some r =>
    simp only [hr] at hq
    split_ifs at hq with hself
    · exact .inl hq
    · rw [Dict.get?_set] at hq
      split_ifs at hq with hkey
      · exact .inr ⟨Option.some.inj hq, congrArg some hkey, hkey ▸ hself⟩
      · exact .inl hq

theorem toPeer_self : u.toPeer u.transferRank = [] := by
  rw [toPeer, Dict.getD]
  cases h : u.sendLists.get? u.transferRank with
  | none => rfl
  | some ops =>
    obtain ⟨e, -, -, -, hne⟩ := u.sendLists_get? h
    exact absurd rfl hne

theorem fromPeer_self : u.fromPeer u.transferRank = [] := by
  rw [fromPeer, Dict.getD]
  cases h : u.recvLists.get? u.transferRank with
  | none => rfl
  | some ops =>
    obtain ⟨e, -, -, -, hne⟩ := u.recvLists_get? h
    exact absurd rfl hne

variable {u}

theorem routed (hs : u.Sliceable) (hk : u.SendKeyed) : u.Routed u.toPeer u.fromPeer := by
  constructor
  · intro p op hop
    rw [toPeer, Dict.getD] at hop
    cases h : u.sendLists.get? p with
    | none => simp [h] at hop
    | some ops =>
      obtain ⟨e, he, rfl, hp, -⟩ := u.sendLists_get? h
      rw [hk e he op (by simpa [h] using hop), hp]
  · intro p op hop
    rw [fromPeer, Dict.getD] at hop
    cases h : u.recvLists.get? p with
    | none => simp [h] at hop
    | some ops =>
      obtain ⟨e, he, rfl, hp, hne⟩ := u.recvLists_get? h
      obtain ⟨r, hr, hcan⟩ := hs.recv e he
      obtain rfl := Option.some.inj (hp.symm.trans hr)
      exact hcan hne op (by simpa [h] using hop)

theorem Routed.mono {sends recvs sends' recvs' : ℕ → List CommunicationOperation}
    (h : u.Routed sends recvs) (hs : ∀ p, sends' p ⊆ sends p) (hr : ∀ p, recvs' p ⊆ recvs p) :
    u.Routed sends' recvs' :=
  ⟨fun p op hop => h.send p op (hs p hop), fun p op hop => h.recv p op (hr p hop)⟩

theorem routed_chunk (hs : u.Sliceable) (hk : u.SendKeyed) (stepSize chunkIdx : ℕ) :
    u.Routed (fun p => chunk stepSize chunkIdx (u.toPeer p))
      (fun p => chunk stepSize chunkIdx (u.fromPeer p)) :=
  (routed hs hk).mono (fun _ _ hop => mem_of_mem_chunk hop) (fun _ _ hop => mem_of_mem_chunk hop)

theorem HandedFor.keep {m₀ m m' : Memory α} {sends recvs : ℕ → List CommunicationOperation}
    {handed : Handed} {cast : Dtype → Dtype → α → α} (h : u.HandedFor cast m₀ m sends recvs handed)
    (hm : m.Keeps m') : u.HandedFor cast m₀ m' sends recvs handed :=
  ⟨fun p => (h.send p).imp (fun _ _ hs => hs.keep u cast hm), h.recv⟩

theorem Ready.store {m₀ m : Memory α} {context : Dict String Tensor} (h : u.Ready m₀ ⟨m, context⟩)
    {ws : List (Address × α)} (hws : InferenceOnly ws) : u.Ready m₀ ⟨m.store ws, context⟩ :=
  ⟨h.keeps.trans (m.keeps_store ws hws), h.context.keep (m.keeps_store ws hws)⟩

section Runs

variable (cast : Dtype → Dtype → α → α)

theorem runOneShot_eq (hs : u.Sliceable) (l : Link α) :
    ∃ handed m, u.HandedFor cast l.memory m u.toPeer u.fromPeer handed ∧ l.memory.Extends m ∧
      u.runOneShot cast l = u.selfPlan cast l.memory >>= fun r =>
        u.executeTransfer handed ⟨m.store r.2, l.inbox, l.outbox⟩ >>= fun l' => .ok ⟨r.1, [handed], l'⟩ := by
  obtain ⟨s, hsends, hprocessed⟩ := processSends_exist cast l.memory hs
  obtain ⟨d, hrecvs, hbuilt⟩ := processRecvs_exist s.workspace.memory hs
  refine ⟨⟨s.allSendP2pOps, d⟩, s.workspace.memory, ⟨hprocessed.sends, hbuilt⟩, hprocessed.extends_memory, ?_⟩
  rw [runOneShot, buildOneShot, hsends, Except.ok_bind, hrecvs, Except.ok_bind,
    u.executeSelfCopies_eq cast hprocessed.extends_memory.keeps hprocessed.sliced]
  cases u.selfPlan cast l.memory with
  | error err => rfl
  | ok r => rfl

theorem runChunked_eq (hs : u.Sliceable) (hp : u.SelfPaired) (stepSize nChunks : ℕ) (l : Link α) :
    ∃ context m, u.Ready l.memory ⟨m, context⟩ ∧ l.memory.Extends m ∧
      u.runChunked cast stepSize nChunks l = u.selfPlan cast l.memory >>= fun r =>
        (List.range nChunks).foldlM (u.runChunk cast stepSize u.sendLists u.recvLists [])
          ⟨context, [], ⟨m.store r.2, l.inbox, l.outbox⟩⟩ >>= fun s => .ok ⟨r.1, s.handed, s.link⟩ := by
  obtain ⟨s, hsends, hsplit⟩ := splitSends_exist l.memory hs hp
  refine ⟨s.workspace.sliceContext, s.workspace.memory, hsplit.ready, hsplit.extends_memory, ?_⟩
  rw [runChunked, splitPlans, hsends, Except.ok_bind, splitRecvs hs, Except.ok_bind, hsplit.collected, hsplit.perPeer]
  simp only [List.mapM_nil, pure, Except.pure, Except.ok_bind]
  rw [u.executeSelfCopies_eq cast hsplit.extends_memory.keeps hsplit.sliced]
  cases u.selfPlan cast l.memory with
  | error err => rfl
  | ok r => rfl

theorem canSend_sendLists (hs : u.Sliceable) : ∀ e ∈ u.sendLists.entries, ∀ op ∈ e.2, u.CanSend op := by
  intro e he
  obtain ⟨e', he', heq, -⟩ := u.sendLists_get? ((Dict.get?_eq_some _ e.1 e.2).mpr he)
  exact heq ▸ hs.send e' he'

theorem canRecv_recvLists (hs : u.Sliceable) : ∀ e ∈ u.recvLists.entries, ∀ op ∈ e.2, u.CanRecv op := by
  intro e he
  obtain ⟨e', he', heq, hkey, hne⟩ := u.recvLists_get? ((Dict.get?_eq_some _ e.1 e.2).mpr he)
  obtain ⟨r, hr, hcan⟩ := hs.recv e' he'
  obtain rfl := Option.some.inj (hkey.symm.trans hr)
  exact heq ▸ hcan hne

theorem runChunk_eq (hs : u.Sliceable) {m₀ : Memory α} (stepSize chunkIdx : ℕ) (s : ChunkState α)
    (hready : u.Ready m₀ ⟨s.link.memory, s.sliceContext⟩) :
    ∃ handed context m, u.HandedFor cast m₀ m (fun p => chunk stepSize chunkIdx (u.toPeer p))
        (fun p => chunk stepSize chunkIdx (u.fromPeer p)) handed ∧
      u.Ready m₀ ⟨m, context⟩ ∧ s.link.memory.Extends m ∧
      u.runChunk cast stepSize u.sendLists u.recvLists [] s chunkIdx =
        u.executeTransfer handed ⟨m, s.link.inbox, s.link.outbox⟩ >>= fun l =>
          .ok ⟨context, s.handed ++ [handed], l⟩ := by
  obtain ⟨w, hsends, hw, hext, hsent⟩ :=
    chunkSends_exist stepSize chunkIdx cast hready u.sendLists (canSend_sendLists hs)
  obtain ⟨d, hrecvs, hbuilt⟩ :=
    chunkRecvs_exist stepSize chunkIdx w.1.memory u.recvLists (canRecv_recvLists hs)
  refine ⟨⟨w.2, d⟩, w.1.sliceContext, w.1.memory, ⟨hsent, hbuilt⟩, hw, hext, ?_⟩
  rw [runChunk, buildChunk, hsends, Except.ok_bind]
  dsimp only
  rw [hrecvs, Except.ok_bind]
  split_ifs <;> rfl

structure ChunksDone (u : ColocateUpdate) (cast : Dtype → Dtype → α → α) (m₀ : Memory α) (stepSize : ℕ)
    (outbox : ℕ → List (Message α)) (n : ℕ) (s : ChunkState α) : Prop where
  ready : u.Ready m₀ ⟨s.link.memory, s.sliceContext⟩
  handed : List.Forall₂ (fun k h => ∃ m, u.HandedFor cast m₀ m (fun p => chunk stepSize k (u.toPeer p))
    (fun p => chunk stepSize k (u.fromPeer p)) h) (List.range n) s.handed
  outbox_eq : s.link.outbox = fun p => outbox p ++ (List.range n).flatMap (fun k =>
    again (timesWalked u.worldSize u.transferRank p)
      ((chunk stepSize k (u.toPeer p)).map (u.planMessage cast m₀)))

theorem chunks_done (hs : u.Sliceable) (hk : u.SendKeyed) {m₀ : Memory α} (stepSize n : ℕ)
    {s s' : ChunkState α} (hready : u.Ready m₀ ⟨s.link.memory, s.sliceContext⟩) (hnil : s.handed = [])
    (h : (List.range n).foldlM (u.runChunk cast stepSize u.sendLists u.recvLists []) s = .ok s') :
    u.ChunksDone cast m₀ stepSize s.link.outbox n s' := by
  induction n generalizing s' with
  | zero =>
    obtain rfl := Except.ok.inj h
    refine ⟨hready, by rw [hnil]; exact .nil, ?_⟩
    funext p
    exact (List.append_nil _).symm
  | succ n ih =>
    rw [List.range_succ, List.foldlM_append, Except.bind_eq_ok] at h
    obtain ⟨s₁, h₁, h⟩ := h
    have hdone := ih h₁
    obtain ⟨handed, context, m, hhanded, hready', hext, heq⟩ :=
      runChunk_eq cast hs stepSize n s₁ hdone.ready
    rw [List.foldlM_cons, heq] at h
    obtain ⟨_, hchunk, hlast⟩ := Except.bind_eq_ok.mp h
    obtain rfl := Except.ok.inj hlast
    obtain ⟨l, hl, hout⟩ := Except.bind_eq_ok.mp hchunk
    obtain rfl := Except.ok.inj hout
    obtain ⟨hkeeps, houtbox⟩ := u.transfer_outbox cast hhanded (routed_chunk hs hk stepSize n) hl
    refine ⟨⟨hready'.keeps.trans hkeeps, hready'.context.keep hkeeps⟩, ?_, ?_⟩
    · rw [List.range_succ]
      exact List.rel_append hdone.handed (.cons ⟨m, hhanded⟩ .nil)
    · rw [houtbox, hdone.outbox_eq]
      funext p
      simp only [List.range_succ, List.flatMap_append, List.flatMap_singleton, List.append_assoc]

theorem chunks_complete (hs : u.Sliceable) (hk : u.SendKeyed) {m₀ : Memory α} (stepSize n : ℕ)
    {s : ChunkState α} (hready : u.Ready m₀ ⟨s.link.memory, s.sliceContext⟩) (hnil : s.handed = [])
    (msg : ℕ → CommunicationOperation → Message α)
    (haccept : ∀ k < n, u.AllAccepted msg (fun p => chunk stepSize k (u.fromPeer p)))
    (rest : ℕ → List (Message α))
    (hinbox : ∀ p, s.link.inbox p = (List.range n).flatMap (fun k =>
      again (timesWalked u.worldSize p u.transferRank)
        ((chunk stepSize k (u.fromPeer p)).map (msg p))) ++ rest p) :
    ∃ s', (List.range n).foldlM (u.runChunk cast stepSize u.sendLists u.recvLists []) s = .ok s' ∧
      s'.link.inbox = rest ∧ ∃ ws, (s.link.memory.store ws).SameTensors s'.link.memory ∧
        ∀ w, w ∈ ws ↔ ∃ k < n, u.Landed msg (fun p => chunk stepSize k (u.fromPeer p)) w := by
  induction n generalizing rest with
  | zero =>
    refine ⟨s, rfl, funext hinbox, [], fun _ _ => rfl, fun w => ?_⟩
    simp
  | succ n ih =>
    obtain ⟨s₁, h₁, hinbox₁, ws, hsame, hws⟩ := ih (fun k hk => haccept k (by omega))
      (fun p => again (timesWalked u.worldSize p u.transferRank)
      ((chunk stepSize n (u.fromPeer p)).map (msg p)) ++ rest p) (fun p => by
        rw [hinbox, List.range_succ, List.flatMap_append, List.flatMap_singleton, List.append_assoc])
    have hdone := chunks_done cast hs hk stepSize n hready hnil h₁
    obtain ⟨handed, context, m, hhanded, hready', hext, heq⟩ :=
      runChunk_eq cast hs stepSize n s₁ hdone.ready
    obtain ⟨ws', hws', -, hspec⟩ := u.transfer_spec cast
      (l := ⟨m, s₁.link.inbox, s₁.link.outbox⟩) hhanded (routed_chunk hs hk stepSize n) msg rest
      (fun p => by rw [hinbox₁])
    obtain ⟨l', htransfer, hrest, hmemory⟩ : ∃ l', u.executeTransfer handed
        ⟨m, s₁.link.inbox, s₁.link.outbox⟩ = .ok l' ∧ l'.inbox = rest ∧ l'.memory = m.store ws' :=
      ⟨_, (hspec _).mpr ⟨haccept n (Nat.lt_succ_self n), rfl⟩, rfl, rfl⟩
    refine ⟨⟨context, s₁.handed ++ [handed], l'⟩, ?_, hrest, ws ++ ws', ?_, fun w => ?_⟩
    · rw [List.range_succ, List.foldlM_append, h₁, Except.ok_bind, List.foldlM_cons, heq, htransfer]
      rfl
    · rw [Memory.store_append, hmemory]
      exact (hsame.trans hext.sameTensors).store ws'
    · rw [List.mem_append, hws, hws']
      constructor
      · rintro (⟨k, hkn, hw⟩ | hw)
        · exact ⟨k, by omega, hw⟩
        · exact ⟨n, by omega, hw⟩
      · rintro ⟨k, hkn, hw⟩
        rcases Nat.lt_succ_iff_lt_or_eq.mp hkn with hkn | rfl
        · exact .inl ⟨k, hkn, hw⟩
        · exact .inr hw

end Runs

end ColocateUpdate

end Awex
