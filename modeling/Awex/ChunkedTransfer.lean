import Awex.ChunkLoop
import Mathlib.Tactic.IntervalCases

namespace Awex

variable {α : Type}

def Handed.planned (d : Direction) (p : ℕ) (h : Handed) : List CommunicationOperation :=
  ((d.choose h.sendOps h.recvOps).getD p []).map Prod.fst

def commonChunks (worldSize stepSize : ℕ) (u : ℕ → ColocateUpdate) : ℕ :=
  ((List.range worldSize).map (fun a =>
    ColocateUpdate.localChunks stepSize (u a).sendLists (u a).recvLists)).foldr max 0

/-- What one rank sends to another is what the other expects from it. -/
structure ColocateFamily (worldSize : ℕ) (u : ℕ → ColocateUpdate) : Prop where
  rank : ∀ a < worldSize, (u a).transferRank = a
  size : ∀ a < worldSize, (u a).worldSize = worldSize
  keyed : ∀ a < worldSize, (u a).SendKeyed
  paired : ∀ a < worldSize, ∀ e ∈ (u a).sendTransferPlan.operations.entries, ∀ op ∈ e.2,
    (u a).inferToTrain.get? a = some op.sendRank
  agree : ∀ a < worldSize, ∀ b < worldSize, a ≠ b → (u a).toPeer b = (u b).fromPeer a
  members : ∀ a < worldSize, ∀ p, worldSize ≤ p → (u a).fromPeer p = []

/-- Every rank finishes, its messages in the order in which its peers sent them, and receives all
of them. -/
structure Completes (worldSize : ℕ) (run : ℕ → Link α → Except TransferError (Outcome α))
    (memory : ℕ → Memory α) (streams : ℕ → ℕ → List (Message α)) (outcome : ℕ → Outcome α) : Prop where
  run_eq : ∀ a < worldSize, run a ⟨memory a, fun p => if p < worldSize then streams p a else [],
    fun _ => []⟩ = .ok (outcome a)
  received : ∀ a < worldSize, (outcome a).link.inbox = fun _ => []
  sent : ∀ a < worldSize, ∀ b < worldSize, (outcome a).link.outbox b = streams a b

/-- Different receives of a rank land in different places. -/
def ColocateUpdate.DestinationsDisjoint (u : ColocateUpdate) : Prop :=
  ∀ p q, ∀ op ∈ u.fromPeer p, ∀ op' ∈ u.fromPeer q, (p, op) ≠ (q, op') →
    List.Disjoint (u.recvView op).addresses (u.recvView op').addresses

theorem le_ceilDiv_mul (x stepSize : ℕ) (h : 1 ≤ stepSize) : x ≤ (x + stepSize - 1) / stepSize * stepSize := by
  have hdiv := Nat.div_add_mod (x + stepSize - 1) stepSize
  have hmod := Nat.mod_lt (x + stepSize - 1) h
  rw [Nat.mul_comm]
  omega

namespace ColocateUpdate

variable {u : ColocateUpdate} {cast : Dtype → Dtype → α → α}

theorem length_le_localChunks {stepSize : ℕ} (h : 1 ≤ stepSize)
    (sendPerPeer recvPerPeer : Dict ℕ (List CommunicationOperation)) (p : ℕ) :
    (sendPerPeer.getD p []).length ≤ localChunks stepSize sendPerPeer recvPerPeer * stepSize ∧
      (recvPerPeer.getD p []).length ≤ localChunks stepSize sendPerPeer recvPerPeer * stepSize := by
  have hmax : max (maxLength sendPerPeer) (maxLength recvPerPeer) ≤
      localChunks stepSize sendPerPeer recvPerPeer * stepSize :=
    (le_ceilDiv_mul _ _ h).trans (Nat.mul_le_mul_right _ (le_max_right _ _))
  exact ⟨(length_le_maxLength sendPerPeer p).trans ((le_max_left _ _).trans hmax),
    (length_le_maxLength recvPerPeer p).trans ((le_max_right _ _).trans hmax)⟩

theorem flatMap_chunk {β : Type} {stepSize n : ℕ} {xs : List β} (h : xs.length ≤ n * stepSize) :
    (List.range n).flatMap (fun k => chunk stepSize k xs) = xs := by
  simp only [chunk]
  rw [flatMap_chunks, List.take_of_length_le h]

theorem updateWeightsInColocateMode_none {l : Link α} {o : Outcome α} :
    u.updateWeightsInColocateMode cast none l = .ok o ↔
      validateRankMappings u.trainToInfer u.inferToTrain = .ok () ∧ u.runOneShot cast l = .ok o := by
  rw [updateWeightsInColocateMode, Except.bind_eq_ok]
  exact ⟨fun ⟨(), h⟩ => h, fun h => ⟨(), h⟩⟩

theorem updateWeightsInColocateMode_some {stepSize n : ℕ} {l : Link α} {o : Outcome α} :
    u.updateWeightsInColocateMode cast (some (stepSize, n)) l = .ok o ↔
      validateRankMappings u.trainToInfer u.inferToTrain = .ok () ∧
        u.runChunked cast stepSize n l = .ok o := by
  rw [updateWeightsInColocateMode, Except.bind_eq_ok]
  exact ⟨fun ⟨(), h⟩ => h, fun h => ⟨(), h⟩⟩

structure OneShotDone (u : ColocateUpdate) (cast : Dtype → Dtype → α → α) (l : Link α) (o : Outcome α)
    (writes : List (Address × α)) (m : Memory α) (handed : Handed) : Prop where
  copies : u.selfPlan cast l.memory = .ok (o.copies, writes)
  extends_memory : l.memory.Extends m
  handed_eq : o.handed = [handed]
  handedFor : u.HandedFor cast l.memory (m.store writes) u.toPeer u.fromPeer handed
  transfer : u.executeTransfer handed ⟨m.store writes, l.inbox, l.outbox⟩ = .ok o.link

theorem oneShot_done (hs : u.Sliceable) {l : Link α} {o : Outcome α} (h : u.runOneShot cast l = .ok o) :
    ∃ writes m handed, u.OneShotDone cast l o writes m handed := by
  obtain ⟨handed, m, hhanded, hext, heq⟩ := runOneShot_eq cast hs l
  rw [heq, Except.bind_eq_ok] at h
  obtain ⟨⟨copies, writes⟩, hself, hrun⟩ := h
  obtain ⟨l', hl', hout⟩ := Except.bind_eq_ok.mp hrun
  obtain rfl := Except.ok.inj hout
  have hkeeps := m.keeps_store writes (u.selfPlan_inferenceOnly cast hself)
  exact ⟨writes, m, handed, hself, hext, rfl, hhanded.keep hkeeps, hl'⟩

theorem chunked_done (hs : u.Sliceable) (hk : u.SendKeyed) (hp : u.SelfPaired) {stepSize n : ℕ}
    {l : Link α} {o : Outcome α} (h : u.runChunked cast stepSize n l = .ok o) :
    ∃ writes context, u.selfPlan cast l.memory = .ok (o.copies, writes) ∧
      u.ChunksDone cast l.memory stepSize l.outbox n ⟨context, o.handed, o.link⟩ := by
  obtain ⟨context, m, hready, hext, heq⟩ := runChunked_eq cast hs hp stepSize n l
  rw [heq, Except.bind_eq_ok] at h
  obtain ⟨⟨copies, writes⟩, hself, hrun⟩ := h
  obtain ⟨s, hchunks, hout⟩ := Except.bind_eq_ok.mp hrun
  obtain rfl := Except.ok.inj hout
  refine ⟨writes, s.sliceContext, hself, ?_⟩
  exact chunks_done cast hs hk stepSize n
    (hready.store (u.selfPlan_inferenceOnly cast hself)) rfl hchunks

theorem HandedFor.planned_eq {m₀ m : Memory α} {sends recvs : ℕ → List CommunicationOperation}
    {handed : Handed} (h : u.HandedFor cast m₀ m sends recvs handed) (d : Direction) (p : ℕ) :
    handed.planned d p = d.choose sends recvs p := by
  cases d with
  | send => exact h.sends_eq p
  | recv => exact h.recvs_eq p

theorem ChunksDone.planned_eq {m₀ : Memory α} {stepSize n : ℕ} {outbox : ℕ → List (Message α)}
    {s : ChunkState α} (h : u.ChunksDone cast m₀ stepSize outbox n s) (d : Direction) (p : ℕ) :
    s.handed.map (·.planned d p) =
      (List.range n).map (fun k => chunk stepSize k (d.choose u.toPeer u.fromPeer p)) := by
  refine (map_eq_of_forall₂ (h.handed.imp (fun k handed hhanded => ?_))).symm
  obtain ⟨m, hm⟩ := hhanded
  rw [hm.planned_eq]
  cases d <;> rfl

theorem landed_consistent (hd : u.DestinationsDisjoint)
    (msg : ℕ → CommunicationOperation → Message α) (ha : u.AllAccepted msg u.fromPeer)
    {ws : List (Address × α)} (hws : ∀ w ∈ ws, u.Landed msg u.fromPeer w) : Store.Consistent ws := by
  intro w hw w' hw' heq
  obtain ⟨p, hp, op, hop, hmem⟩ := hws w hw
  obtain ⟨q, hq, op', hop', hmem'⟩ := hws w' hw'
  have haccept := ha p hp op hop
  have haccept' := ha q hq op' hop'
  rw [Tensor.wire_eq_addresses haccept.contiguous] at hmem
  rw [Tensor.wire_eq_addresses haccept'.contiguous] at hmem'
  have hsame : (p, op) = (q, op') := by
    by_contra hne
    have hshared := (List.of_mem_zip hmem').1
    rw [← heq] at hshared
    exact hd p q op hop op' hop' hne (List.of_mem_zip hmem).1 hshared
  obtain ⟨rfl, rfl⟩ := Prod.mk.inj hsame
  refine Store.consistent_of_nodup _ ?_ w hmem w' hmem' heq
  rw [List.map_fst_zip (by rw [Tensor.length_addresses, haccept.length_eq])]
  exact haccept.contiguous.addresses_nodup

theorem mem_chunk_iff {β : Type} {stepSize n : ℕ} {xs : List β} (h : xs.length ≤ n * stepSize) {x : β} :
    (∃ k < n, x ∈ chunk stepSize k xs) ↔ x ∈ xs := by
  conv_rhs => rw [← flatMap_chunk h]
  simp only [List.mem_flatMap, List.mem_range]

theorem chunked_of_oneShot (hk : u.SendKeyed) (hp : u.SelfPaired) {stepSize n : ℕ}
    (hlength : ∀ p, (u.fromPeer p).length ≤ n * stepSize)
    (msg : ℕ → CommunicationOperation → Message α) {m : Memory α} {inbox inbox' outbox : ℕ → List (Message α)}
    (hinbox : ∀ p, inbox p = again (timesWalked u.worldSize p u.transferRank) ((u.fromPeer p).map (msg p)))
    (hinbox' : ∀ p, inbox' p = (List.range n).flatMap (fun k =>
      again (timesWalked u.worldSize p u.transferRank) ((chunk stepSize k (u.fromPeer p)).map (msg p))))
    {o : Outcome α} (h : u.runOneShot cast ⟨m, inbox, outbox⟩ = .ok o) :
    ∃ o', u.runChunked cast stepSize n ⟨m, inbox', outbox⟩ = .ok o' ∧ (o'.link.inbox = fun _ => []) ∧
      (u.DestinationsDisjoint → o.link.memory.SameTensors o'.link.memory) := by
  -- a rank that gets the messages of the one-shot path, but chunk by chunk, ends with the same parameters
  have hs := u.sliceable_of_oneShot h
  obtain ⟨writes, m₁, handed, hone⟩ := oneShot_done hs h
  obtain ⟨ws, hws, -, hspec⟩ := u.transfer_spec cast (l := ⟨m₁.store writes, inbox, outbox⟩)
    hone.handedFor (routed hs hk) msg (fun _ => []) (fun p => (hinbox p).trans (List.append_nil _).symm)
  obtain ⟨haccept, hlink⟩ := (hspec o.link).mp hone.transfer
  obtain ⟨context, m₂, hready, hext, heq⟩ :=
    runChunked_eq cast hs hp stepSize n ⟨m, inbox', outbox⟩
  obtain ⟨s, hchunks, hleft, ws', hsame, hws'⟩ := chunks_complete cast hs hk stepSize n
    (s := ⟨context, [], ⟨m₂.store writes, inbox', outbox⟩⟩)
    (hready.store (u.selfPlan_inferenceOnly cast hone.copies)) rfl msg
    (fun k _ p hp op hop => haccept p hp op (mem_of_mem_chunk hop)) (fun _ => [])
    (fun p => (hinbox' p).trans (List.append_nil _).symm)
  refine ⟨⟨o.copies, s.handed, s.link⟩, ?_, hleft, fun hd => ?_⟩
  · rw [heq, hone.copies, Except.ok_bind]
    dsimp only
    rw [hchunks, Except.ok_bind]
  · have hmem : ∀ w, w ∈ ws ↔ w ∈ ws' := by
      intro w
      simp only [hws, hws', Landed]
      constructor
      · rintro ⟨p, hwalked, op, hop, hw⟩
        obtain ⟨k, hkn, hop⟩ := (mem_chunk_iff (hlength p)).mpr hop
        exact ⟨k, hkn, p, hwalked, op, hop, hw⟩
      · rintro ⟨k, hkn, p, hwalked, op, hop, hw⟩
        exact ⟨p, hwalked, op, mem_of_mem_chunk hop, hw⟩
    have hconsistent := landed_consistent hd msg haccept (fun w hw => (hws w).mp hw)
    have hstart : m₁.SameTensors m₂ := fun a ha => (hone.extends_memory.sameTensors a ha).symm.trans
      (hext.sameTensors a ha)
    rw [hlink]
    intro a ha
    refine ((hstart.store writes).store ws a ha).trans (Eq.trans ?_ (hsame a ha))
    exact congrFun (Store.writeAll_congr _ ws ws' hconsistent hmem) a

theorem same_lists (hk : u.SendKeyed) (hp : u.SelfPaired) {stepSize n : ℕ} {l l' : Link α}
    {o o' : Outcome α} (hmemory : l'.memory = l.memory)
    (hlength : ∀ d : Direction, ∀ p, (d.choose u.toPeer u.fromPeer p).length ≤ n * stepSize)
    (h : u.runOneShot cast l = .ok o) (h' : u.runChunked cast stepSize n l' = .ok o') :
    o'.copies = o.copies ∧
      ∀ d p, o'.handed.flatMap (·.planned d p) = o.handed.flatMap (·.planned d p) := by
  have hs := u.sliceable_of_oneShot h
  obtain ⟨writes, m, handed, hone⟩ := oneShot_done hs h
  obtain ⟨writes', context, hself, hchunks⟩ := chunked_done hs hk hp h'
  constructor
  · rw [hmemory, hone.copies] at hself
    exact (congrArg Prod.fst (Except.ok.inj hself)).symm
  · intro d p
    have hplanned := hchunks.planned_eq d p
    rw [List.flatMap_def, hplanned, ← List.flatMap_def, flatMap_chunk (hlength d p), hone.handed_eq,
      List.flatMap_singleton, hone.handedFor.planned_eq]

end ColocateUpdate

open ColocateUpdate

variable {worldSize : ℕ} {u : ℕ → ColocateUpdate}

theorem length_le_commonChunks {stepSize : ℕ} (h : 1 ≤ stepSize) {a : ℕ} (ha : a < worldSize)
    (d : Direction) (p : ℕ) : (d.choose (u a).toPeer (u a).fromPeer p).length ≤
      commonChunks worldSize stepSize u * stepSize := by
  have hmax : localChunks stepSize (u a).sendLists (u a).recvLists ≤ commonChunks worldSize stepSize u :=
    le_foldr_max (List.mem_map.mpr ⟨a, List.mem_range.mpr ha, rfl⟩)
  obtain ⟨hsend, hrecv⟩ := length_le_localChunks h (u a).sendLists (u a).recvLists p
  cases d with
  | send => exact hsend.trans (Nat.mul_le_mul_right _ hmax)
  | recv => exact hrecv.trans (Nat.mul_le_mul_right _ hmax)

namespace ColocateFamily

variable (hu : ColocateFamily worldSize u)

include hu

theorem selfPaired {a : ℕ} (ha : a < worldSize) : (u a).SelfPaired := by
  intro e he _ op hop
  rw [hu.rank a ha]
  exact hu.paired a ha e he op hop

theorem sent_eq_expected {β : Type} (messages : ℕ → CommunicationOperation → β)
    (cut : List CommunicationOperation → List CommunicationOperation) (hcut : cut [] = []) {a : ℕ}
    (ha : a < worldSize) (p : ℕ) :
    (if p < worldSize then (cut ((u p).toPeer a)).map (messages p) else []) =
      (cut ((u a).fromPeer p)).map (messages p) := by
  split_ifs with hp
  · by_cases hpa : p = a
    · subst hpa
      have hto := (u p).toPeer_self
      have hfrom := (u p).fromPeer_self
      rw [hu.rank p hp] at hto hfrom
      rw [hto, hfrom]
    · rw [hu.agree p hp a ha hpa]
  · rw [hu.members a ha p (by omega), hcut]
    rfl

end ColocateFamily

theorem again_nil {β : Type} (n : ℕ) : again n ([] : List β) = [] := by
  rw [List.eq_nil_iff_forall_not_mem]
  intro x hx
  simpa using (mem_again.mp hx).2

section Family

variable (hu : ColocateFamily worldSize u) {cast : Dtype → Dtype → α → α} {memory : ℕ → Memory α}
  {streams : ℕ → ℕ → List (Message α)} {outcome : ℕ → Outcome α}

include hu

theorem oneShot_streams (h : Completes worldSize
      (fun a => (u a).updateWeightsInColocateMode cast none) memory streams outcome) {a b : ℕ}
    (ha : a < worldSize) (hb : b < worldSize) : streams a b =
      again (timesWalked worldSize a b) (((u a).toPeer b).map ((u a).planMessage cast (memory a))) := by
  obtain ⟨-, hrun⟩ := updateWeightsInColocateMode_none.mp (h.run_eq a ha)
  have hs := (u a).sliceable_of_oneShot hrun
  obtain ⟨writes, m, handed, hone⟩ := oneShot_done hs hrun
  obtain ⟨-, houtbox⟩ := (u a).transfer_outbox cast hone.handedFor (routed hs (hu.keyed a ha)) hone.transfer
  rw [← h.sent a ha b hb, houtbox, hu.rank a ha, hu.size a ha]
  rfl

theorem chunked_streams {stepSize n : ℕ} (h : Completes worldSize
      (fun a => (u a).updateWeightsInColocateMode cast (some (stepSize, n))) memory streams outcome)
    {a b : ℕ} (hs : (u a).Sliceable) (ha : a < worldSize) (hb : b < worldSize) : streams a b =
      (List.range n).flatMap (fun k => again (timesWalked worldSize a b)
        ((chunk stepSize k ((u a).toPeer b)).map ((u a).planMessage cast (memory a)))) := by
  obtain ⟨-, hrun⟩ := updateWeightsInColocateMode_some.mp (h.run_eq a ha)
  obtain ⟨writes, context, -, hchunks⟩ := chunked_done hs (hu.keyed a ha) (hu.selfPaired ha) hrun
  have houtbox := hchunks.outbox_eq
  dsimp only at houtbox
  rw [← h.sent a ha b hb, houtbox, hu.rank a ha, hu.size a ha]
  rfl

theorem expected_inbox (cast : Dtype → Dtype → α → α) (memory : ℕ → Memory α) {a : ℕ} (ha : a < worldSize) (p : ℕ)
    (cut : List CommunicationOperation → List CommunicationOperation) (hcut : cut [] = []) :
    (if p < worldSize then again (timesWalked worldSize p a)
      ((cut ((u p).toPeer a)).map ((u p).planMessage cast (memory p))) else []) =
      again (timesWalked (u a).worldSize p (u a).transferRank)
        ((cut ((u a).fromPeer p)).map ((u p).planMessage cast (memory p))) := by
  rw [hu.rank a ha, hu.size a ha,
    ← hu.sent_eq_expected (fun p => (u p).planMessage cast (memory p)) cut hcut ha p]
  split_ifs
  · rfl
  · exact (again_nil _).symm

theorem chunked_completes {stepSize : ℕ} (hstep : 1 ≤ stepSize) (h : Completes worldSize
      (fun a => (u a).updateWeightsInColocateMode cast none) memory streams outcome) :
    ∃ streams' outcome', Completes worldSize (fun a => (u a).updateWeightsInColocateMode cast
        (some (stepSize, commonChunks worldSize stepSize u))) memory streams' outcome' ∧
      ∀ a < worldSize, (u a).DestinationsDisjoint →
        (outcome a).link.memory.SameTensors (outcome' a).link.memory := by
  set n := commonChunks worldSize stepSize u with hn
  have hrank : ∀ a, ∃ o', a < worldSize → ((u a).updateWeightsInColocateMode cast (some (stepSize, n))
      ⟨memory a, fun p => if p < worldSize then (List.range n).flatMap (fun k =>
        again (timesWalked worldSize p a) ((chunk stepSize k ((u p).toPeer a)).map
          ((u p).planMessage cast (memory p)))) else [], fun _ => []⟩ = .ok o' ∧
      (o'.link.inbox = fun _ => []) ∧ ((u a).DestinationsDisjoint →
        (outcome a).link.memory.SameTensors o'.link.memory)) := by
    intro a
    by_cases ha : a < worldSize
    · obtain ⟨hvalid, hrun⟩ := updateWeightsInColocateMode_none.mp (h.run_eq a ha)
      have hinbox : ∀ p, (if p < worldSize then streams p a else []) =
          again (timesWalked (u a).worldSize p (u a).transferRank)
            (((u a).fromPeer p).map ((u p).planMessage cast (memory p))) := by
        intro p
        refine Eq.trans ?_ (expected_inbox hu cast memory ha p id rfl)
        split_ifs with hp
        · exact oneShot_streams hu h hp ha
        · rfl
      have hinbox' : ∀ p, (if p < worldSize then (List.range n).flatMap (fun k =>
          again (timesWalked worldSize p a) ((chunk stepSize k ((u p).toPeer a)).map
            ((u p).planMessage cast (memory p)))) else []) = (List.range n).flatMap (fun k =>
          again (timesWalked (u a).worldSize p (u a).transferRank)
            ((chunk stepSize k ((u a).fromPeer p)).map ((u p).planMessage cast (memory p)))) := by
        intro p
        have hchunk := fun k => expected_inbox hu cast memory ha p
          (chunk stepSize k) (chunk_nil stepSize k)
        simp only [← hchunk]
        split_ifs with hp
        · rfl
        · exact (List.flatMap_eq_nil_iff.mpr (fun _ _ => rfl)).symm
      obtain ⟨o', hrun', hrest⟩ := chunked_of_oneShot (hu.keyed a ha) (hu.selfPaired ha)
        (fun p => length_le_commonChunks hstep ha .recv p)
        (fun p => (u p).planMessage cast (memory p)) hinbox hinbox' hrun
      exact ⟨o', fun _ => ⟨updateWeightsInColocateMode_some.mpr ⟨hvalid, hrun'⟩, hrest⟩⟩
    · exact ⟨outcome a, fun ha' => absurd ha' ha⟩
  choose outcome' houtcome using hrank
  refine ⟨fun a b => (List.range n).flatMap (fun k => again (timesWalked worldSize a b)
      ((chunk stepSize k ((u a).toPeer b)).map ((u a).planMessage cast (memory a)))), outcome',
    ⟨fun a ha => (houtcome a ha).1, fun a ha => (houtcome a ha).2.1, fun a ha b hb => ?_⟩,
    fun a ha => (houtcome a ha).2.2⟩
  obtain ⟨-, hrun⟩ := updateWeightsInColocateMode_none.mp (h.run_eq a ha)
  obtain ⟨-, hrun'⟩ := updateWeightsInColocateMode_some.mp (houtcome a ha).1
  obtain ⟨writes, context, -, hchunks⟩ := chunked_done ((u a).sliceable_of_oneShot hrun)
    (hu.keyed a ha) (hu.selfPaired ha) hrun'
  have houtbox := hchunks.outbox_eq
  dsimp only at houtbox
  rw [houtbox, hu.rank a ha, hu.size a ha]
  rfl

theorem chunked_unique {stepSize n : ℕ} {streams' : ℕ → ℕ → List (Message α)} {outcome' : ℕ → Outcome α}
    (hs : ∀ a < worldSize, (u a).Sliceable)
    (h : Completes worldSize (fun a => (u a).updateWeightsInColocateMode cast (some (stepSize, n)))
      memory streams outcome)
    (h' : Completes worldSize (fun a => (u a).updateWeightsInColocateMode cast (some (stepSize, n)))
      memory streams' outcome') {a : ℕ} (ha : a < worldSize) : outcome' a = outcome a := by
  have hinbox : (fun p => if p < worldSize then streams' p a else []) =
      fun p => if p < worldSize then streams p a else [] := by
    funext p
    split_ifs with hp
    · rw [chunked_streams hu h (hs p hp) hp ha, chunked_streams hu h' (hs p hp) hp ha]
    · rfl
  have hrun := h'.run_eq a ha
  rw [hinbox, h.run_eq a ha] at hrun
  exact (Except.ok.inj hrun).symm

end Family

/-- Whenever the one-shot path completes, so does the chunked one: it makes the same local copies,
hands over the same lists, cut alike on both sides, and leaves the same parameters. -/
theorem chunked_transfer (hu : ColocateFamily worldSize u) (cast : Dtype → Dtype → α → α)
    (stepSize : ℕ) (hstep : 1 ≤ stepSize) (memory : ℕ → Memory α) (streams : ℕ → ℕ → List (Message α))
    (outcome : ℕ → Outcome α) (h : Completes worldSize
      (fun a => (u a).updateWeightsInColocateMode cast none) memory streams outcome) :
    (∃ streams' outcome', Completes worldSize (fun a => (u a).updateWeightsInColocateMode cast
      (some (stepSize, commonChunks worldSize stepSize u))) memory streams' outcome') ∧
    ∀ streams' outcome', Completes worldSize (fun a => (u a).updateWeightsInColocateMode cast
        (some (stepSize, commonChunks worldSize stepSize u))) memory streams' outcome' →
      (∀ a < worldSize, ∀ d p, (outcome' a).handed.flatMap (·.planned d p) =
        (outcome a).handed.flatMap (·.planned d p)) ∧
      (∀ a < worldSize, ∀ b < worldSize, a ≠ b → (outcome' a).handed.map (·.planned .send b) =
        (outcome' b).handed.map (·.planned .recv a)) ∧
      (∀ a < worldSize, (outcome' a).copies = (outcome a).copies) ∧
      ∀ a < worldSize, (u a).DestinationsDisjoint →
        (outcome a).link.memory.SameTensors (outcome' a).link.memory := by
  have hrun : ∀ a < worldSize, (u a).runOneShot cast
      ⟨memory a, fun p => if p < worldSize then streams p a else [], fun _ => []⟩ = .ok (outcome a) :=
    fun a ha => (updateWeightsInColocateMode_none.mp (h.run_eq a ha)).2
  have hs : ∀ a < worldSize, (u a).Sliceable := fun a ha => (u a).sliceable_of_oneShot (hrun a ha)
  obtain ⟨streams₀, outcome₀, hcompletes, hsame⟩ := chunked_completes hu hstep h
  refine ⟨⟨streams₀, outcome₀, hcompletes⟩, fun streams' outcome' h' => ?_⟩
  have hlists : ∀ a < worldSize, (outcome' a).copies = (outcome a).copies ∧ ∀ d p,
      (outcome' a).handed.flatMap (·.planned d p) = (outcome a).handed.flatMap (·.planned d p) := by
    intro a ha
    have hrun' := (updateWeightsInColocateMode_some.mp (h'.run_eq a ha)).2
    exact same_lists (hu.keyed a ha) (hu.selfPaired ha) (by rfl)
      (fun d p => length_le_commonChunks hstep ha d p) (hrun a ha) hrun'
  refine ⟨fun a ha => (hlists a ha).2, fun a ha b hb hab => ?_, fun a ha => (hlists a ha).1,
    fun a ha hd => ?_⟩
  · obtain ⟨_, _, -, hchunks⟩ := chunked_done (hs a ha) (hu.keyed a ha) (hu.selfPaired ha)
      (updateWeightsInColocateMode_some.mp (h'.run_eq a ha)).2
    obtain ⟨_, _, -, hchunks'⟩ := chunked_done (hs b hb) (hu.keyed b hb) (hu.selfPaired hb)
      (updateWeightsInColocateMode_some.mp (h'.run_eq b hb)).2
    have hsend := hchunks.planned_eq .send b
    have hrecv := hchunks'.planned_eq .recv a
    dsimp only [Direction.choose_send, Direction.choose_recv] at hsend hrecv
    rw [hsend, hrecv, hu.agree a ha b hb hab]
  · rw [chunked_unique hu hs hcompletes h' ha]
    exact hsame a ha hd

def plannedStreams (worldSize : ℕ) (u : ℕ → ColocateUpdate) (cast : Dtype → Dtype → α → α)
    (memory : ℕ → Memory α) (a b : ℕ) : List (Message α) :=
  again (timesWalked worldSize a b) (((u a).toPeer b).map ((u a).planMessage cast (memory a)))

theorem oneShot_completes (hu : ColocateFamily worldSize u) (cast : Dtype → Dtype → α → α)
    (memory : ℕ → Memory α) (outcome : ℕ → Outcome α) (h : ∀ a < worldSize,
      (u a).updateWeightsInColocateMode cast none ⟨memory a, fun p => if p < worldSize then
        plannedStreams worldSize u cast memory p a else [], fun _ => []⟩ = .ok (outcome a)) :
    Completes worldSize (fun a => (u a).updateWeightsInColocateMode cast none) memory
      (plannedStreams worldSize u cast memory) outcome := by
  have hlink : ∀ a < worldSize, ((outcome a).link.inbox = fun _ => []) ∧ ∀ b,
      (outcome a).link.outbox b = plannedStreams worldSize u cast memory a b := by
    intro a ha
    obtain ⟨-, hrun⟩ := updateWeightsInColocateMode_none.mp (h a ha)
    have hs := (u a).sliceable_of_oneShot hrun
    obtain ⟨writes, m, handed, hone⟩ := oneShot_done hs hrun
    obtain ⟨ws, -, -, hspec⟩ := (u a).transfer_spec cast (l := ⟨m.store writes, fun p =>
        if p < worldSize then plannedStreams worldSize u cast memory p a else [], fun _ => []⟩)
      hone.handedFor (routed hs (hu.keyed a ha)) (fun p => (u p).planMessage cast (memory p)) (fun _ => [])
      (fun p => (expected_inbox hu cast memory ha p id rfl).trans (List.append_nil _).symm)
    obtain ⟨-, hlink⟩ := (hspec _).mp hone.transfer
    rw [hlink]
    refine ⟨rfl, fun b => ?_⟩
    rw [plannedStreams, hu.rank a ha, hu.size a ha]
    rfl
  exact ⟨h, fun a ha => (hlink a ha).1, fun a ha b _ => (hlink a ha).2 b⟩

/-- Row `row` of a matrix, sent as it is. -/
def rowOperation (sendRank recvRank row : ℕ) : CommunicationOperation :=
  let shard : ParameterShardMeta :=
    ⟨0, 0, 0, 0, 0, 0, 2, 0, "w", [4, 1], 4, .float32, [0, 0], .noSharding, 1, 0⟩
  ⟨sendRank, shard, [row, 0], recvRank, shard, [row, 0], [1, 1], [⟨row, row + 1⟩], [⟨row, row + 1⟩]⟩

/-- Rank `a`, with training rank `2 + a`, sends two rows to both ranks. -/
def rowUpdate (a : ℕ) : ColocateUpdate where
  sendTransferPlan := ⟨Dict.ofList [(0, [rowOperation (2 + a) 0 (2 * a), rowOperation (2 + a) 0 (2 * a + 1)]),
    (1, [rowOperation (2 + a) 1 (2 * a), rowOperation (2 + a) 1 (2 * a + 1)])]⟩
  recvTransferPlan := ⟨Dict.ofList [(2, [rowOperation 2 a 0, rowOperation 2 a 1]),
    (3, [rowOperation 3 a 2, rowOperation 3 a 3])]⟩
  trainToInfer := Dict.ofList [(2, 0), (3, 1)]
  inferToTrain := Dict.ofList [(0, 2), (1, 3)]
  transferRank := a
  worldSize := 2
  sendParameters := Dict.ofList [("w", ⟨0, 0, [⟨4, 1⟩, ⟨1, 1⟩], .float32⟩)]
  recvParameters := Dict.ofList [("w", ⟨0, 0, [⟨4, 1⟩, ⟨1, 1⟩], .float32⟩)]

def rowMemory (a : ℕ) : Memory ℕ := ⟨fun x => 10 * a + x.2, 0⟩

theorem rowUpdate_family : ColocateFamily 2 rowUpdate where
  rank := fun _ _ => rfl
  size := fun _ _ => rfl
  keyed := by
    simp only [SendKeyed]
    decide
  paired := by decide
  agree := by decide
  members := by
    intro a ha p hp
    rw [fromPeer, Dict.getD]
    cases h : (rowUpdate a).recvLists.get? p with
    | none => rfl
    | some ops =>
      obtain ⟨e, -, -, hkey, -⟩ := (rowUpdate a).recvLists_get? h
      have hrank := Dict.mem_of_get?_ofList _ _ _ hkey
      simp at hrank
      omega

theorem rowUpdate_disjoint {a : ℕ} (ha : a < 2) : (rowUpdate a).DestinationsDisjoint := by
  intro p q op hop op' hop' hne
  have hlt : ∀ p, (rowUpdate a).fromPeer p ≠ [] → p < 2 := fun p hp => by
    by_contra hge
    exact hp (rowUpdate_family.members a ha p (by omega))
  have hp := hlt p (List.ne_nil_of_mem hop)
  have hq := hlt q (List.ne_nil_of_mem hop')
  have hall : ∀ op ∈ (rowUpdate a).fromPeer p, ∀ op' ∈ (rowUpdate a).fromPeer q, (p, op) ≠ (q, op') →
      ∀ x ∈ ((rowUpdate a).recvView op).addresses, x ∉ ((rowUpdate a).recvView op').addresses := by
    clear hne hop hop'
    interval_cases a <;> interval_cases p <;> interval_cases q <;> decide
  exact List.disjoint_left.mpr (fun x hx => hall op hop op' hop' hne x hx)

theorem chunked_transfer_rows : ∃ (outcome outcome' : ℕ → Outcome ℕ) (streams' : ℕ → ℕ → List (Message ℕ)),
    Completes 2
    (fun a => (rowUpdate a).updateWeightsInColocateMode (fun _ _ => id)
      (some (1, commonChunks 2 1 rowUpdate))) rowMemory streams' outcome' ∧
    ∀ a < 2, Memory.SameTensors (outcome a).link.memory (outcome' a).link.memory := by
  have hrank : ∀ a, ∃ o, a < 2 → (rowUpdate a).updateWeightsInColocateMode (fun _ _ => id) none
      ⟨rowMemory a, fun p => if p < 2 then plannedStreams 2 rowUpdate (fun _ _ => id) rowMemory p a else [],
        fun _ => []⟩ = .ok o := by
    intro a
    by_cases ha : a < 2
    · interval_cases a <;> exact ⟨_, fun _ => rfl⟩
    · exact ⟨⟨[], [], ⟨rowMemory a, fun _ => [], fun _ => []⟩⟩, fun ha' => absurd ha' ha⟩
  choose outcome houtcome using hrank
  obtain ⟨⟨streams', outcome', hcompletes⟩, hsame⟩ := chunked_transfer rowUpdate_family
    (fun _ _ => id) 1 (by decide) rowMemory _ outcome
    (oneShot_completes rowUpdate_family (fun _ _ => id) rowMemory outcome houtcome)
  exact ⟨outcome, outcome', streams', hcompletes, fun a ha =>
    (hsame streams' outcome' hcompletes).2.2.2 a ha (rowUpdate_disjoint ha)⟩

end Awex
