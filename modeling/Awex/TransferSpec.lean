import Awex.ColocatePrepare

namespace Awex

variable {α : Type}

namespace ColocateUpdate

variable (u : ColocateUpdate) (cast : Dtype → Dtype → α → α)

structure HandedFor (m₀ m : Memory α) (sends recvs : ℕ → List CommunicationOperation) (h : Handed) :
    Prop where
  send : ∀ p, List.Forall₂ (u.SentAs cast m₀ m) (sends p) (h.sendOps.getD p [])
  recv : ∀ p, h.recvOps.getD p [] = (recvs p).map (u.recvBuilt p)

structure Routed (sends recvs : ℕ → List CommunicationOperation) : Prop where
  send : ∀ p, ∀ op ∈ sends p, mapRank u.trainToInfer op.recvRank = p
  recv : ∀ p, ∀ op ∈ recvs p, u.CanRecv op

section Posted

variable {u cast} {m₀ m : Memory α} {sends recvs : ℕ → List CommunicationOperation} {handed : Handed}

theorem HandedFor.sends_eq (h : u.HandedFor cast m₀ m sends recvs handed) (p : ℕ) :
    (handed.sendOps.getD p []).map Prod.fst = sends p := by
  rw [← List.map_id (sends p)]
  exact (map_eq_of_forall₂ ((h.send p).imp (fun _ _ hs => hs.op_eq.symm))).symm

theorem HandedFor.recvs_eq (h : u.HandedFor cast m₀ m sends recvs handed) (p : ℕ) :
    (handed.recvOps.getD p []).map Prod.fst = recvs p := by
  rw [h.recv, List.map_map]
  exact List.map_id _

theorem HandedFor.addressed (h : u.HandedFor cast m₀ m sends recvs handed) (hr : u.Routed sends recvs) :
    handed.Addressed := by
  constructor
  · intro p built hbuilt
    obtain ⟨op, hop, hs⟩ := exists_of_forall₂_mem_right (h.send p) hbuilt
    exact ⟨hs.send, hs.peer.trans (hr.send p op hop)⟩
  · intro p built hbuilt
    rw [h.recv] at hbuilt
    obtain ⟨op, -, rfl⟩ := List.mem_map.mp hbuilt
    exact ⟨rfl, rfl⟩

theorem HandedFor.postOk (h : u.HandedFor cast m₀ m sends recvs handed) (hr : u.Routed sends recvs) :
    ∀ op ∈ u.posted handed, PostOk op := by
  intro op hop
  have hmem : op ∈ (u.posted handed).filter (fun q => q.op = op.op ∧ q.peer = op.peer) := by
    simpa using hop
  rw [posted_filter u (h.addressed hr), mem_again] at hmem
  obtain ⟨built, hbuilt, hop'⟩ := List.mem_map.mp hmem.2
  constructor
  · intro hsend
    rw [hsend] at hbuilt
    obtain ⟨_, -, hs⟩ := exists_of_forall₂_mem_right (h.send _) hbuilt
    exact hop' ▸ ⟨hs.contiguous, hs.not_inference⟩
  · intro hrecv
    rw [hrecv] at hbuilt
    change built ∈ handed.recvOps.getD op.peer [] at hbuilt
    rw [h.recv] at hbuilt
    obtain ⟨planned, hplanned, rfl⟩ := List.mem_map.mp hbuilt
    exact hop' ▸ (hr.recv _ planned hplanned).inference

theorem HandedFor.sentMessages_eq (h : u.HandedFor cast m₀ m sends recvs handed)
    (hr : u.Routed sends recvs) (p : ℕ) : sentMessages m (u.posted handed) p =
      again (timesWalked u.worldSize u.transferRank p) ((sends p).map (u.planMessage cast m₀)) := by
  rw [sentMessages, sendsTo, posted_filter u (h.addressed hr), walkSlots_send, map_again, List.map_map]
  exact congrArg _ (map_eq_of_forall₂ ((h.send p).imp (fun _ _ hs => hs.message.symm))).symm

theorem HandedFor.receives_eq (h : u.HandedFor cast m₀ m sends recvs handed)
    (hr : u.Routed sends recvs) (p : ℕ) : (receives (u.posted handed)).filter (fun op => op.peer = p) =
      again (timesWalked u.worldSize p u.transferRank) ((recvs p).map (fun op => (u.recvBuilt p op).2)) := by
  have hfilter := posted_filter u (h.addressed hr) .recv p
  rw [walkSlots_recv] at hfilter
  change _ = again _ ((handed.recvOps.getD p []).map Prod.snd) at hfilter
  rw [h.recv, List.map_map] at hfilter
  rw [receives, List.filter_filter]
  simp only [← Bool.decide_and, and_comm (a := (_ : P2POp).peer = p)]
  exact hfilter

end Posted

/-- What a rank writes when every receive of `recvs` gets its message. -/
def Landed (msg : ℕ → CommunicationOperation → Message α) (recvs : ℕ → List CommunicationOperation)
    (w : Address × α) : Prop :=
  ∃ p, 0 < timesWalked u.worldSize p u.transferRank ∧
    ∃ op ∈ recvs p, w ∈ (u.recvView op).wire.zip (msg p op).data

def AllAccepted (msg : ℕ → CommunicationOperation → Message α)
    (recvs : ℕ → List CommunicationOperation) : Prop :=
  ∀ p, 0 < timesWalked u.worldSize p u.transferRank → ∀ op ∈ recvs p, Accepts (u.recvView op) (msg p op)

theorem transfer_spec {m₀ : Memory α} {l : Link α} {sends recvs : ℕ → List CommunicationOperation}
    {handed : Handed} (h : u.HandedFor cast m₀ l.memory sends recvs handed) (hr : u.Routed sends recvs)
    (msg : ℕ → CommunicationOperation → Message α) (rest : ℕ → List (Message α))
    (hinbox : ∀ p, l.inbox p =
      again (timesWalked u.worldSize p u.transferRank) ((recvs p).map (msg p)) ++ rest p) :
    ∃ ws, (∀ w, w ∈ ws ↔ u.Landed msg recvs w) ∧ InferenceOnly ws ∧
      ∀ l', u.executeTransfer handed l = .ok l' ↔ u.AllAccepted msg recvs ∧
        l' = ⟨l.memory.store ws, rest, fun p => l.outbox p ++
          again (timesWalked u.worldSize u.transferRank p) ((sends p).map (u.planMessage cast m₀))⟩ := by
  obtain ⟨matched, hd, hmatched⟩ := Fifo.deliver_of_prefix (fun op : P2POp => op.peer) l.inbox
    (receives (u.posted handed))
    (fun p => again (timesWalked u.worldSize p u.transferRank)
      ((recvs p).map (fun op => ((u.recvBuilt p op).2, msg p op)))) rest
    (fun p => by rw [h.receives_eq hr, map_again, List.map_map]; rfl)
    (fun p => by rw [hinbox, map_again, List.map_map]; rfl)
  have hmem : ∀ pair, pair ∈ matched ↔ ∃ p, 0 < timesWalked u.worldSize p u.transferRank ∧
      ∃ op ∈ recvs p, ((u.recvBuilt p op).2, msg p op) = pair := by
    intro pair
    have hpeer : pair ∈ matched ↔ ∃ p, pair ∈ matched.filter (fun q => q.1.peer = p) := by simp
    rw [hpeer]
    simp only [hmatched, mem_again, List.mem_map]
  have haccept : (∀ pair ∈ matched, Accepts pair.1.tensor pair.2) ↔ u.AllAccepted msg recvs := by
    constructor
    · intro hall p hp op hop
      exact hall _ ((hmem _).mpr ⟨p, hp, op, hop, rfl⟩)
    · intro hall pair hpair
      obtain ⟨p, hp, op, hop, rfl⟩ := (hmem _).mp hpair
      exact hall p hp op hop
  refine ⟨arrivals matched, fun w => ?_, arrivals_inferenceOnly (fun pair hpair => ?_),
    fun l' => ?_⟩
  · simp only [arrivals, List.mem_flatMap, hmem, Landed]
    constructor
    · rintro ⟨_, ⟨p, hp, op, hop, rfl⟩, hw⟩
      exact ⟨p, hp, op, hop, hw⟩
    · rintro ⟨p, hp, op, hop, hw⟩
      exact ⟨_, ⟨p, hp, op, hop, rfl⟩, hw⟩
  · obtain ⟨p, -, op, hop, rfl⟩ := (hmem _).mp hpair
    exact (hr.recv p op hop).inference
  · rw [u.executeTransfer_eq, foldlM_post_eq_ok (h.postOk hr), ← haccept, hd]
    simp only [h.sentMessages_eq hr, Option.some.injEq, Prod.mk.injEq]
    constructor
    · rintro ⟨_, ⟨rfl, hrest⟩, hall, hm, ho⟩
      refine ⟨hall, ?_⟩
      obtain ⟨m', i', o'⟩ := l'
      simp only at hrest hm ho
      rw [hrest, hm, ho]
    · rintro ⟨hall, rfl⟩
      exact ⟨_, ⟨rfl, rfl⟩, hall, rfl, rfl⟩

theorem transfer_outbox {m₀ : Memory α} {l l' : Link α} {sends recvs : ℕ → List CommunicationOperation}
    {handed : Handed} (h : u.HandedFor cast m₀ l.memory sends recvs handed) (hr : u.Routed sends recvs)
    (hl' : u.executeTransfer handed l = .ok l') :
    l.memory.Keeps l'.memory ∧ l'.outbox = fun p => l.outbox p ++
      again (timesWalked u.worldSize u.transferRank p) ((sends p).map (u.planMessage cast m₀)) := by
  rw [u.executeTransfer_eq, foldlM_post_eq_ok (h.postOk hr)] at hl'
  obtain ⟨matched, hd, -, hm, ho⟩ := hl'
  constructor
  · rw [hm]
    apply Memory.keeps_store
    apply arrivals_inferenceOnly
    intro pair hpair
    have hreq : pair.1 ∈ receives (u.posted handed) := by
      rw [← Fifo.deliver_requests hd]
      exact List.mem_map_of_mem hpair
    obtain ⟨hposted, hrecv⟩ := List.mem_filter.mp hreq
    exact (h.postOk hr _ hposted).recv (by simpa using hrecv)
  · rw [ho]
    simp only [h.sentMessages_eq hr]

end ColocateUpdate

end Awex
