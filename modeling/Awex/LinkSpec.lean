import Awex.Exchange
import Awex.PartitionSchedule
import Awex.StreamBatch

namespace Awex

variable {α : Type}

def InferenceOnly (ws : List (Address × α)) : Prop := ∀ w ∈ ws, ∃ n, w.1.1 = .inference n

theorem Memory.keeps_store (m : Memory α) (ws : List (Address × α)) (h : InferenceOnly ws) :
    m.Keeps (m.store ws) := by
  refine ⟨le_rfl, fun a hi _ => Store.writeAll_of_not_mem _ _ _ fun ha => ?_⟩
  obtain ⟨w, hw, rfl⟩ := List.mem_map.mp ha
  obtain ⟨n, hn⟩ := h w hw
  exact hi n hn

theorem Memory.store_read (m : Memory α) (ws : List (Address × α)) (h : InferenceOnly ws) (t : Tensor)
    (hi : ¬ t.IsInference) : (m.store ws).read t = m.read t := by
  apply List.map_congr_left
  intro a ha
  apply Store.writeAll_of_not_mem
  intro hmem
  obtain ⟨w, hw, rfl⟩ := List.mem_map.mp hmem
  obtain ⟨n, hn⟩ := h w hw
  exact hi ⟨n, (t.addresses_buffer _ ha).symm.trans hn⟩

theorem arrivals_inferenceOnly {matched : List (P2POp × Message α)}
    (h : ∀ pair ∈ matched, pair.1.tensor.IsInference) : InferenceOnly (arrivals matched) := by
  intro w hw
  obtain ⟨pair, hpair, hw⟩ := List.mem_flatMap.mp hw
  obtain ⟨n, hn⟩ := h pair hpair
  exact ⟨n, (Tensor.wire_buffer _ _ (List.of_mem_zip hw).1).trans hn⟩

structure PostOk (op : P2POp) : Prop where
  send : op.op = .send → op.tensor.IsContiguous ∧ ¬ op.tensor.IsInference
  recv : op.op = .recv → op.tensor.IsInference

def sentMessages (m : Memory α) (ops : List P2POp) (peer : ℕ) : List (Message α) :=
  (sendsTo ops peer).map (fun op => ⟨op.tensor.dtype, m.read op.tensor⟩)

theorem Memory.message_of_contiguous (m : Memory α) {t : Tensor} (h : t.IsContiguous) :
    m.message t = .ok ⟨t.dtype, m.read t⟩ := by
  rw [message, if_pos h, Tensor.wire_eq_addresses h]
  rfl

theorem post_send {l : Link α} {op : P2POp} (hop : op.op = .send) (hc : op.tensor.IsContiguous) :
    l.post op = .ok ⟨l.memory, l.inbox, Function.update l.outbox op.peer
      (l.outbox op.peer ++ [⟨op.tensor.dtype, l.memory.read op.tensor⟩])⟩ := by
  simp only [Link.post, hop, l.memory.message_of_contiguous hc]
  rfl

theorem post_recv_eq_ok {l l' : Link α} {op : P2POp} (hop : op.op = .recv) :
    l.post op = .ok l' ↔ ∃ msg rest, l.inbox op.peer = msg :: rest ∧ Accepts op.tensor msg ∧
      l' = ⟨l.memory.store (op.tensor.wire.zip msg.data), Function.update l.inbox op.peer rest,
        l.outbox⟩ := by
  unfold Link.post
  simp only [hop]
  cases hq : l.inbox op.peer with
  | nil => simp
  | cons msg rest =>
    simp only [Except.bind_eq_ok, Memory.receive_eq_ok, Except.ok.injEq, List.cons.injEq]
    constructor
    · rintro ⟨m, ⟨ha, rfl⟩, rfl⟩
      exact ⟨msg, rest, ⟨rfl, rfl⟩, ha, rfl⟩
    · rintro ⟨_, _, ⟨rfl, rfl⟩, ha, rfl⟩
      exact ⟨_, ⟨ha, rfl⟩, rfl⟩

theorem foldlM_post_eq_ok {l l' : Link α} {ops : List P2POp} (h : ∀ op ∈ ops, PostOk op) :
    ops.foldlM Link.post l = .ok l' ↔ ∃ matched,
      Fifo.deliver (·.peer) l.inbox (receives ops) = some (matched, l'.inbox) ∧
      (∀ pair ∈ matched, Accepts pair.1.tensor pair.2) ∧ l'.memory = l.memory.store (arrivals matched) ∧
      l'.outbox = fun p => l.outbox p ++ sentMessages l.memory ops p := by
  -- posting one operation after another is the same as sending everything and receiving in FIFO order
  induction ops generalizing l with
  | nil =>
    simp only [List.foldlM_nil, receives, List.filter_nil, Fifo.deliver, sentMessages, sendsTo,
      List.map_nil, List.append_nil]
    constructor
    · intro hl
      obtain rfl := Except.ok.inj hl
      exact ⟨[], rfl, by simp, rfl, rfl⟩
    · rintro ⟨matched, hd, -, hm, ho⟩
      obtain ⟨rfl, hi⟩ := Prod.mk.inj (Option.some.inj hd)
      obtain ⟨m', i', o'⟩ := l'
      simp only at hm ho hi
      subst hm ho hi
      rfl
  | cons op ops ih =>
    obtain ⟨hop, hrest⟩ := List.forall_mem_cons.mp h
    rw [List.foldlM_cons, Except.bind_eq_ok]
    cases hdir : op.op with
    | send =>
      obtain ⟨hc, hi⟩ := hop.send hdir
      have hreceives : receives (op :: ops) = receives ops := by simp [receives, hdir]
      have houtbox : ∀ p, Function.update l.outbox op.peer
          (l.outbox op.peer ++ [⟨op.tensor.dtype, l.memory.read op.tensor⟩]) p ++
            sentMessages l.memory ops p = l.outbox p ++ sentMessages l.memory (op :: ops) p := by
        intro p
        by_cases hp : op.peer = p
        · subst hp
          simp [sentMessages, sendsTo, hdir]
        · rw [Function.update_of_ne (Ne.symm hp)]
          simp [sentMessages, sendsTo, hdir, hp]
      simp only [post_send hdir hc, Except.ok.injEq, exists_eq_left', ih hrest, hreceives, houtbox]
    | recv =>
      have hi := hop.recv hdir
      have hreceives : receives (op :: ops) = op :: receives ops := by simp [receives, hdir]
      have hstored : ∀ msg : Message α, ∀ p, sentMessages (l.memory.store (op.tensor.wire.zip msg.data)) ops p =
          sentMessages l.memory (op :: ops) p := by
        intro msg p
        have hsends : sendsTo (op :: ops) p = sendsTo ops p := by simp [sendsTo, hdir]
        rw [sentMessages, sentMessages, hsends]
        apply List.map_congr_left
        intro send hsend
        obtain ⟨hmem, hsend⟩ := List.mem_filter.mp hsend
        simp only [decide_eq_true_eq] at hsend
        rw [Memory.store_read _ _ _ _ ((hrest send hmem).send hsend.1).2]
        intro w hw
        obtain ⟨n, hn⟩ := hi
        exact ⟨n, (Tensor.wire_buffer _ _ (List.of_mem_zip hw).1).trans hn⟩
      simp only [post_recv_eq_ok hdir, hreceives, Fifo.deliver_cons_eq_some]
      constructor
      · rintro ⟨_, ⟨msg, rest, hq, ha, rfl⟩, hrun⟩
        obtain ⟨matched, hd, has, hm, ho⟩ := (ih hrest).mp hrun
        refine ⟨(op, msg) :: matched, ⟨msg, rest, matched, hq, rfl, hd⟩,
          List.forall_mem_cons.mpr ⟨ha, has⟩, ?_, ?_⟩
        · rw [hm]
          exact (l.memory.store_append _ _).symm
        · rw [ho]
          simp only [hstored]
      · rintro ⟨_, ⟨msg, rest, matched, hq, rfl, hd⟩, has, hm, ho⟩
        obtain ⟨ha, has⟩ := List.forall_mem_cons.mp has
        refine ⟨_, ⟨msg, rest, hq, ha, rfl⟩, (ih hrest).mpr ⟨matched, hd, has, ?_, ?_⟩⟩
        · rw [hm]
          exact l.memory.store_append _ _
        · rw [ho]
          simp only [hstored]

section Walks

variable {β : Type}

theorem mem_executeOpsConcurrent {d : Dict ℕ (List β)} {peers : List ℕ} {e : ℕ × List β}
    (h : e ∈ executeOpsConcurrent d peers) : e.2 = d.getD e.1 [] := by
  obtain ⟨peer, -, he⟩ := List.mem_filterMap.mp h
  rcases hd : d.get? peer with _ | (_ | ⟨op, ops⟩)
  · simp [hd] at he
  · simp [hd] at he
  · simp only [hd, Option.some.injEq] at he
    subst he
    simp [Dict.getD, hd]

theorem batch_ops {rank worldSize : ℕ} {sendOps recvOps : Dict ℕ (List β)} {batch : PeerBatch β}
    (h : batch ∈ executeRecursivePartitionStreamTransfer rank worldSize sendOps recvOps) :
    batch.ops = (batch.direction.choose sendOps recvOps).getD batch.peer [] := by
  obtain ⟨call, -, h⟩ := List.mem_flatMap.mp h
  obtain ⟨e, he, rfl⟩ := List.mem_map.mp h
  exact mem_executeOpsConcurrent he

/-- The number of rounds in which `a` walks to `b`. -/
def timesWalked (worldSize a b : ℕ) : ℕ := (pairSlots worldSize a b).length

/-- `xs`, as often as a peer is walked to. -/
def again (n : ℕ) (xs : List β) : List β := (List.replicate n xs).flatten

theorem mem_again {n : ℕ} {xs : List β} {x : β} : x ∈ again n xs ↔ 0 < n ∧ x ∈ xs := by
  simp only [again, List.mem_flatten, List.mem_replicate]
  constructor
  · rintro ⟨ys, ⟨hn, rfl⟩, hx⟩
    exact ⟨Nat.pos_of_ne_zero hn, hx⟩
  · rintro ⟨hn, hx⟩
    exact ⟨xs, ⟨hn.ne', rfl⟩, hx⟩

theorem map_again {γ : Type} (n : ℕ) (xs : List β) (f : β → γ) : (again n xs).map f = again n (xs.map f) := by
  simp [again, List.map_flatten]

theorem again_succ (n : ℕ) (xs : List β) : again (n + 1) xs = xs ++ again n xs := by
  rw [again, List.replicate_succ, List.flatten_cons]
  rfl

theorem slotBatches_ops (direction : Direction) (peer : ℕ) (ops : List β) (slots : List (ℕ × ℕ)) :
    (slots.flatMap (slotBatch direction peer ops)).flatMap (·.ops) = again slots.length ops := by
  induction slots with
  | nil => rfl
  | cons slot slots ih =>
    rw [List.flatMap_cons, List.flatMap_append, ih, List.length_cons, again_succ]
    congr 1
    unfold slotBatch
    split_ifs with h
    · rw [h]
      rfl
    · exact List.append_nil _

end Walks

structure Handed.Addressed (h : Handed) : Prop where
  send : ∀ p, ∀ built ∈ h.sendOps.getD p [], built.2.op = .send ∧ built.2.peer = p
  recv : ∀ p, ∀ built ∈ h.recvOps.getD p [], built.2.op = .recv ∧ built.2.peer = p

theorem filter_addressed {ops : List BuiltOp} {d : Direction} {q : ℕ}
    (h : ∀ built ∈ ops, built.2.op = d ∧ built.2.peer = q) (d' : Direction) (p : ℕ) :
    ops.filter (fun built => built.2.op = d' ∧ built.2.peer = p) = if d = d' ∧ q = p then ops else [] := by
  split_ifs with hc
  · rw [List.filter_eq_self]
    intro built hbuilt
    simpa [h built hbuilt] using hc
  · rw [List.filter_eq_nil_iff]
    intro built hbuilt
    simpa [h built hbuilt] using hc

namespace ColocateUpdate

variable (u : ColocateUpdate)

def posted (h : Handed) : List P2POp :=
  ((executeRecursivePartitionStreamTransfer u.transferRank u.worldSize h.sendOps h.recvOps).flatMap
    (·.ops)).map Prod.snd

theorem executeTransfer_eq (h : Handed) (l : Link α) :
    u.executeTransfer h l = (u.posted h).foldlM Link.post l := by
  rw [executeTransfer, Link.exchange, posted, List.foldlM_map]

theorem posted_filter {h : Handed} (haddr : h.Addressed) (d : Direction) (p : ℕ) :
    (u.posted h).filter (fun op => op.op = d ∧ op.peer = p) =
      again (walkSlots u.worldSize d u.transferRank p).length
        (((d.choose h.sendOps h.recvOps).getD p []).map Prod.snd) := by
  have hbatch : ∀ batch ∈ executeRecursivePartitionStreamTransfer u.transferRank u.worldSize h.sendOps
      h.recvOps, (batch.ops.filter (fun built => built.2.op = d ∧ built.2.peer = p)) =
        if batch.direction = d ∧ batch.peer = p then batch.ops else [] := by
    intro batch hmem
    have hops := batch_ops hmem
    have hall : ∀ built ∈ batch.ops, built.2.op = batch.direction ∧ built.2.peer = batch.peer := by
      intro built hbuilt
      rw [hops] at hbuilt
      cases hd : batch.direction with
      | send => exact haddr.send _ built (by simpa [hd] using hbuilt)
      | recv => exact haddr.recv _ built (by simpa [hd] using hbuilt)
    exact filter_addressed hall d p
  rw [posted, List.filter_map, ← map_again]
  congr 1
  have hpeer := peerBatches_eq u.worldSize h.sendOps h.recvOps d u.transferRank p
  rw [← slotBatches_ops d p, ← hpeer, peerBatches]
  simp only [Function.comp_def]
  generalize executeRecursivePartitionStreamTransfer u.transferRank u.worldSize h.sendOps h.recvOps =
    batches at hbatch
  induction batches with
  | nil => rfl
  | cons batch batches ih =>
    obtain ⟨hb, hbs⟩ := List.forall_mem_cons.mp hbatch
    rw [List.flatMap_cons, List.filter_append, hb, ih hbs]
    by_cases hc : batch.direction = d ∧ batch.peer = p <;> simp [hc]

end ColocateUpdate

end Awex
