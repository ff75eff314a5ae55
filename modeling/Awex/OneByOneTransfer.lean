import Awex.DirectReceive
import Awex.Library.Meetings
import Awex.Library.OneSided
import Awex.OneByOne

namespace Awex

open Channels Rendezvous RoundRobin Schedules

variable {α : Type}

section Operations

variable (cast : Dtype → Dtype → α → α)

/-- The writer's and the reader's `_send_recv_one_by_one`: each waits for an operation before it
starts the next one. -/
def waitedOperations : Operations ℕ P2POp (Memory α) (Message α) where
  action := P2POp.action
  message memory op := (memory.message op.tensor).toOption
  receive memory op msg := (receiveOne cast memory op msg).toOption

def oneByOneNet (b : TransferPlanBuilder) (sent : ℕ → SendOps α) (posted : ℕ → RecvOps α) :
    Net ℕ P2POp (Memory α) (Message α) where
  remaining a :=
    if a < b.inferWorldSize then sendRecvOneByOne (posted a).p2pOpList (posted a).recvTrajList
    else if a < b.worldSize then sendRecvOneByOne (sent a).p2pOpList (sent a).sendTrajList
    else []
  state a := if a < b.inferWorldSize then (posted a).memory else (sent a).workspace.memory
  queue _ _ := []

end Operations

theorem ncclBuildSendOps_waited {parameters : Dict String Parameter} {transferPlan : TransferPlan} {memory : Memory α}
    {sent : SendOps α} (h : ncclBuildSendOps parameters transferPlan (-1) false memory = .ok sent) :
    sendRecvOneByOne sent.p2pOpList sent.sendTrajList = sent.p2pOpList := by
  rw [ncclBuildSendOps, buildLoop_eq] at h
  apply sendRecvOneByOne_eq
  apply emitAll_induction (fun _ (s : SendOps α) => s.sendTrajList.length = s.p2pOpList.length) h rfl
  intro done e s s' hs he
  obtain ⟨p, tensor, w, -, -, rfl⟩ := emitSend_eq_ok.mp he
  simp [hs]

theorem ncclBuildRecvOps_direct {parameters : Dict String Parameter} {transferPlan : TransferPlan} {memory : Memory α}
    {posted : RecvOps α} (h : ncclBuildRecvOps parameters transferPlan false memory = .ok posted) :
    posted.memory = memory ∧ posted.nonContiguousTensorPairs = [] := by
  rw [ncclBuildRecvOps, buildLoop_eq] at h
  apply emitAll_induction (fun _ (s : RecvOps α) => s.memory = memory ∧ s.nonContiguousTensorPairs = []) h ⟨rfl, rfl⟩
  intro done e s s' hs he
  obtain ⟨p, sliced, -, -, rfl⟩ := emitRecv_eq_ok.mp he
  simp [recvTarget, stagedPair, hs.1, hs.2]

section Plans

variable {b : TransferPlanBuilder} {infer train : List ParameterMeta} {plan : ℕ → TransferPlan}
  {parameters : ℕ → Dict String Parameter} {memory : ℕ → Memory α}

theorem planned_pairsAgree (hmeta : CommonMetadata b infer train)
    (hplan : ∀ g < b.worldSize, buildLocalTransferPlan b infer train g = .ok (plan g))
    (hdeploy : Deployment b infer train parameters) : PairsAgree b.inferWorldSize b.worldSize plan := by
  have hinfer : ∀ r, r < b.inferWorldSize → r < b.worldSize := fun r hr => hr.trans_le (Nat.le_add_left _ _)
  constructor
  · intro t ht htw r hr
    rw [planned_train hplan ht htw, planned_infer hplan hr]
  · intro t ht htw p hp
    rw [Dict.mem_keys, trainPlan_get? b infer train t p ht _ (hplan t htw)] at hp
    split_ifs at hp with hop
    · obtain ⟨op, hop, -, rfl⟩ := hop
      exact (planned_law hmeta hop).2.1
    · simp at hp
  · intro r hr p hp
    rw [Dict.mem_keys, inferPlan_get? b infer train p r hr _ (hplan r (hinfer r hr))] at hp
    split_ifs at hp with hop
    · obtain ⟨op, hop, rfl, -⟩ := hop
      exact ⟨(planned_law hmeta hop).2.2.1, send_lt hmeta hdeploy hop⟩
    · simp at hp

theorem oneByOneNet_follows (cast : Dtype → Dtype → α → α) (hmeta : CommonMetadata b infer train)
    (hplan : ∀ g < b.worldSize, buildLocalTransferPlan b infer train g = .ok (plan g))
    (hdeploy : Deployment b infer train parameters) {sent : ℕ → SendOps α} {posted : ℕ → RecvOps α}
    (hsent : ∀ t, b.inferWorldSize ≤ t → t < b.worldSize →
      ncclBuildSendOps (parameters t) (plan t) (-1) false (memory t) = .ok (sent t))
    (hposted : ∀ r < b.inferWorldSize, ncclBuildRecvOps (parameters r) (plan r) false (memory r) = .ok (posted r)) :
    ∃ left, Channels.Follows (waitedOperations cast) (oneByOneNet b sent posted) left := by
  obtain ⟨n, hprograms⟩ := oneByOnePrograms_eq (planned_pairsAgree hmeta hplan hdeploy) hsent hposted
  have hapart : ∀ e ∈ positionEvents b.inferWorldSize b.worldSize plan n, e.1 ≠ e.2 :=
    fun e he => (positionEvents_bound n e he).1
  refine ⟨_, Channels.Follows.start (fun a => ?_) (fun _ _ => rfl) hapart⟩
  rw [← hprograms]
  unfold oneByOneNet oneByOnePrograms
  simp only
  split_ifs <;> rfl

theorem oneByOne_receives (hplan : ∀ g < b.worldSize, buildLocalTransferPlan b infer train g = .ok (plan g))
    (hmeta : CommonMetadata b infer train) (hdeploy : Deployment b infer train parameters) {r : ℕ}
    (hr : r < b.inferWorldSize) {batch posted : RecvOps α} {landings : List Landing}
    (hbatch : RecvsPosted b parameters plan memory batch landings r)
    (hposted : ncclBuildRecvOps (parameters r) (plan r) false (memory r) = .ok posted) :
    sendRecvOneByOne posted.p2pOpList posted.recvTrajList = landings.map Landing.direct := by
  obtain ⟨posted', hposted', hslices⟩ := ncclBuildRecvOps_slices (parameters r) (plan r) (memory r) fun e he => by
    rw [mem_visited, planned_infer hplan hr, mem_pairOperations] at he
    obtain ⟨hop, -, hrecv⟩ := he
    obtain ⟨q, v, -, hslice, -⟩ := recv_slice hmeta hdeploy hop
    exact ⟨q, v, hrecv ▸ hslice⟩
  obtain rfl := Except.ok.inj (hposted.symm.trans hposted')
  rw [← hbatch.spec.entries, List.forall₂_map_left_iff] at hslices
  apply Eq.trans (List.map_id _).symm
  apply (map_eq_of_forall₂_mem hslices _).symm
  rintro l hl p2p ⟨hop, hpeer, p, hslice⟩
  obtain ⟨p', hslice'⟩ := (hbatch.spec.ok l hl).slice
  obtain rfl := Option.some.inj (hslice.parameter.symm.trans hslice'.parameter)
  obtain htensor := Except.ok.inj (hslice.index.symm.trans hslice'.index)
  obtain ⟨op, tensor, peer⟩ := p2p
  obtain rfl : op = .recv := hop
  obtain rfl : peer = l.peer := hpeer
  obtain rfl : tensor = l.view := htensor
  rfl

end Plans

theorem filter_zip_map {ε ο μ : Type} {R : ε → ο → Prop} {entries : List ε} {ops : List ο}
    (h : List.Forall₂ R entries ops) (p : ο → Prop) (q : ε → Prop) [DecidablePred p] [DecidablePred q]
    (hpq : ∀ e op, R e op → (p op ↔ q e)) (f : ε → μ) :
    (((entries.zip ops).map fun x => (x.2, f x.1)).filter fun x => p x.1).map Prod.snd =
      (entries.filter (q ·)).map f := by
  induction h with
  | nil => rfl
  | @cons e op entries ops hR _ ih =>
    rw [List.zip_cons_cons, List.map_cons, List.filter_cons, List.filter_cons]
    by_cases hq : q e
    · rw [if_pos (decide_eq_true ((hpq e op hR).mpr hq)), if_pos (decide_eq_true hq), List.map_cons, List.map_cons, ih]
    · rw [if_neg (by simpa using fun hp => hq ((hpq e op hR).mp hp)), if_neg (by simpa using hq), ih]

/-- All ranks have built their operations; `batch` is what the receivers build for the batched update. -/
structure OneByOneBuilt (b : TransferPlanBuilder) (infer train : List ParameterMeta) (plan : ℕ → TransferPlan)
    (parameters : ℕ → Dict String Parameter) (memory : ℕ → Memory α) (sent : ℕ → SendOps α)
    (posted batch : ℕ → RecvOps α) (landings : ℕ → List Landing) (source : CommunicationOperation → Tensor) :
    Prop where
  sends : ∀ t, b.inferWorldSize ≤ t → t < b.worldSize →
    ncclBuildSendOps (parameters t) (plan t) (-1) false (memory t) = .ok (sent t) ∧
      SendsBuilt (parameters t) (memory t) (visited (plan t).operations) (sent t)
  recvs : ∀ r < b.inferWorldSize, ncclBuildRecvOps (parameters r) (plan r) false (memory r) = .ok (posted r)
  batched : ∀ r < b.inferWorldSize, RecvsPosted b parameters plan memory (batch r) (landings r) r
  sources : Sources b infer train parameters source

section Transfer

variable {b : TransferPlanBuilder} {infer train : List ParameterMeta} {plan : ℕ → TransferPlan}
  {parameters : ℕ → Dict String Parameter} (hmeta : CommonMetadata b infer train)
  (hplan : ∀ g < b.worldSize, buildLocalTransferPlan b infer train g = .ok (plan g))
  (hdeploy : Deployment b infer train parameters)

include hmeta hplan hdeploy

theorem oneByOneBuilt_exists (memory : ℕ → Memory α) :
    ∃ sent posted batch landings source,
      OneByOneBuilt b infer train plan parameters memory sent posted batch landings source := by
  have hsends : ∀ t, ∃ sent : SendOps α, b.inferWorldSize ≤ t → t < b.worldSize →
      ncclBuildSendOps (parameters t) (plan t) (-1) false (memory t) = .ok sent ∧
        SendsBuilt (parameters t) (memory t) (visited (plan t).operations) sent := by
    intro t
    by_cases ht : b.inferWorldSize ≤ t ∧ t < b.worldSize
    · obtain ⟨sent, hsent⟩ := ncclBuildSendOps_spec (parameters t) (plan t) false (memory t) fun e he => by
        rw [mem_visited, planned_train hplan ht.1 ht.2, mem_pairOperations] at he
        obtain ⟨hop, hsend, -⟩ := he
        obtain ⟨p, v, hslice, -⟩ := send_slice hmeta hdeploy hop
        exact ⟨p, v, hsend ▸ hslice⟩
      exact ⟨sent, fun _ _ => hsent⟩
    · exact ⟨⟨⟨memory t, .empty⟩, [], [], []⟩, fun h h' => absurd ⟨h, h'⟩ ht⟩
  have hrecvs : ∀ r, ∃ posted batch landings, r < b.inferWorldSize →
      ncclBuildRecvOps (parameters r) (plan r) false (memory r) = .ok posted ∧
        RecvsPosted b parameters plan memory batch landings r := by
    intro r
    by_cases hr : r < b.inferWorldSize
    · obtain ⟨posted, hposted, -⟩ := ncclBuildRecvOps_slices (parameters r) (plan r) (memory r) fun e he => by
        rw [mem_visited, planned_infer hplan hr, mem_pairOperations] at he
        obtain ⟨hop, -, hrecv⟩ := he
        obtain ⟨q, v, -, hslice, -⟩ := recv_slice hmeta hdeploy hop
        exact ⟨q, v, hrecv ▸ hslice⟩
      obtain ⟨batch, landings, hbatch⟩ := recvs_posted hmeta hplan hdeploy memory r hr
      exact ⟨posted, batch, landings, fun _ => ⟨hposted, hbatch⟩⟩
    · exact ⟨⟨memory r, [], [], []⟩, ⟨memory r, [], [], []⟩, [], fun h => absurd h hr⟩
  choose sent hsent using hsends
  choose posted batch landings hposted using hrecvs
  obtain ⟨source, hsource⟩ := sources_exist hmeta hdeploy
  exact ⟨sent, posted, batch, landings, source, hsent, fun r hr => (hposted r hr).1, fun r hr => (hposted r hr).2,
    hsource⟩

end Transfer

section Messages

variable {b : TransferPlanBuilder} {infer train : List ParameterMeta} {plan : ℕ → TransferPlan}
  {parameters : ℕ → Dict String Parameter} {memory : ℕ → Memory α} {sent : ℕ → SendOps α}
  {posted batch : ℕ → RecvOps α} {landings : ℕ → List Landing} {source : CommunicationOperation → Tensor}

/-- Each operation of a rank with the message that it sends or takes. -/
def messagePairs (b : TransferPlanBuilder) (plan : ℕ → TransferPlan) (memory : ℕ → Memory α) (sent : ℕ → SendOps α)
    (landings : ℕ → List Landing) (source : CommunicationOperation → Tensor) (a : ℕ) : List (P2POp × Message α) :=
  if a < b.inferWorldSize then (landings a).map fun l => (l.direct, landingMessage memory source l)
  else if a < b.worldSize then
    ((visited (plan a).operations).zip (sent a).p2pOpList).map fun x => (x.2, sliceMessage memory source x.1.2)
  else []

theorem messagePairs_infer {r : ℕ} (hr : r < b.inferWorldSize) : messagePairs b plan memory sent landings source r =
    (landings r).map fun l => (l.direct, landingMessage memory source l) := if_pos hr

theorem messagePairs_train {t : ℕ} (ht : b.inferWorldSize ≤ t) (htw : t < b.worldSize) :
    messagePairs b plan memory sent landings source t =
      ((visited (plan t).operations).zip (sent t).p2pOpList).map fun x => (x.2, sliceMessage memory source x.1.2) := by
  rw [messagePairs, if_neg (not_lt.mpr ht), if_pos htw]

variable (cast : Dtype → Dtype → α → α) (hmeta : CommonMetadata b infer train)
  (hplan : ∀ g < b.worldSize, buildLocalTransferPlan b infer train g = .ok (plan g))
  (hdeploy : Deployment b infer train parameters)
  (hbuilt : OneByOneBuilt b infer train plan parameters memory sent posted batch landings source)

include hmeta hplan hdeploy hbuilt

theorem OneByOneBuilt.remaining (a : ℕ) : (oneByOneNet b sent posted).remaining a =
    (messagePairs b plan memory sent landings source a).map Prod.fst := by
  unfold oneByOneNet messagePairs
  simp only
  split_ifs with hr ht
  · rw [oneByOne_receives hplan hmeta hdeploy hr (hbuilt.batched a hr) (hbuilt.recvs a hr), List.map_map]
    rfl
  · obtain ⟨hsent, hspec⟩ := hbuilt.sends a (not_lt.mp hr) ht
    rw [ncclBuildSendOps_waited hsent, List.map_map]
    exact (List.map_snd_zip (Nat.le_of_eq hspec.posted.length_eq.symm)).symm
  · rfl

omit hdeploy in
theorem OneByOneBuilt.send_message {t : ℕ} (ht : b.inferWorldSize ≤ t) (htw : t < b.worldSize)
    {e : ℕ × CommunicationOperation} {p2p : P2POp}
    (hmem : (e, p2p) ∈ (visited (plan t).operations).zip (sent t).p2pOpList) :
    p2p.action = .send e.1 ∧ e.1 < b.inferWorldSize ∧
      ((sent t).workspace.memory.message p2p.tensor) = .ok (sliceMessage memory source e.2) := by
  obtain ⟨-, hspec⟩ := hbuilt.sends t ht htw
  obtain ⟨hsend, hpeer, p, v, hslice, hcarries⟩ := List.forall₂_zip hspec.posted hmem
  have he := (List.of_mem_zip hmem).1
  rw [mem_visited, planned_train hplan ht htw, mem_pairOperations] at he
  obtain ⟨hop, rfl, hrecv⟩ := he
  obtain ⟨p', hslice', -⟩ := hbuilt.sources e.2 hop
  obtain rfl := Option.some.inj (hslice.parameter.symm.trans hslice'.parameter)
  obtain rfl := Except.ok.inj (hslice.index.symm.trans hslice'.index)
  refine ⟨?_, hrecv ▸ (planned_law hmeta hop).2.1, ?_⟩
  · rw [P2POp.action, hsend, hpeer]
    rfl
  · rw [hcarries.message, hspec.extends_memory.read_eq (Parameter.training_live hslice.index _)]
    rfl

omit hmeta hdeploy in
theorem OneByOneBuilt.sentTo_eq {t : ℕ} (ht : b.inferWorldSize ≤ t) (htw : t < b.worldSize) (r : ℕ) :
    sentTo (waitedOperations cast) (messagePairs b plan memory sent landings source t) r =
      (pairOperations (plannedOperations b infer train none) t r).map (sliceMessage memory source) := by
  obtain ⟨-, hspec⟩ := hbuilt.sends t ht htw
  rw [messagePairs_train ht htw, ← planned_train hplan ht htw]
  have hfilter := filter_zip_map (R := SentFor (parameters t) (sent t).workspace.memory) hspec.posted
    (fun p2p : P2POp => p2p.action = .send r) (fun e => e.1 = r) (fun e p2p h => by
      rw [P2POp.action, h.1, h.2.1, Direction.choose_send]
      simp) fun e => sliceMessage memory source e.2
  rw [filter_visited, List.map_map] at hfilter
  exact hfilter

omit hmeta hdeploy in
theorem OneByOneBuilt.takenFrom_eq {r : ℕ} (hr : r < b.inferWorldSize) (t : ℕ) :
    takenFrom (waitedOperations cast) (messagePairs b plan memory sent landings source r) t =
      (pairOperations (plannedOperations b infer train none) t r).map (sliceMessage memory source) := by
  have hentries := filter_visited (plan r).operations t
  rw [← (hbuilt.batched r hr).spec.entries, List.filter_map, planned_infer hplan hr] at hentries
  have hops := congrArg (List.map fun e => sliceMessage memory source e.2) hentries
  rw [List.map_map, List.map_map] at hops
  rw [messagePairs_infer hr, takenFrom, List.filter_map, List.map_map]
  refine Eq.trans ?_ hops
  have hsame : (landings r).filter ((fun p : P2POp × Message α => (waitedOperations cast).action p.1 = .recv t) ∘
      fun l => (l.direct, landingMessage memory source l)) =
      (landings r).filter ((fun e : ℕ × CommunicationOperation => e.1 = t) ∘ Landing.entry) := by
    apply List.filter_congr
    intro l _
    have haction : (waitedOperations cast).action l.direct = .recv l.peer := rfl
    apply decide_eq_decide.mpr
    rw [haction]
    exact Action.recv.injEq l.peer t ▸ Iff.rfl
  rw [hsame]
  rfl

omit hmeta hplan hdeploy hbuilt in
theorem receiveEach_landings (ls : List Landing) (m : Memory α) :
    receiveEach (waitedOperations cast) m (ls.map fun l => (l.direct, landingMessage memory source l)) =
      (receiveDirectly cast (landingMessage memory source) m ls).toOption := by
  induction ls generalizing m with
  | nil => rfl
  | cons l ls ih =>
    unfold receiveEach receiveDirectly
    rw [List.map_cons, List.foldlM_cons, List.foldlM_cons, Except.toOption_bind]
    apply congrArg₂
    · rfl
    · funext m'
      exact ih m'

theorem OneByOneBuilt.received {r : ℕ} (hr : r < b.inferWorldSize) : ∃ final,
    receiveDirectly cast (landingMessage memory source) (memory r) (landings r) = .ok final ∧
      Updated b infer train parameters memory r final := by
  have hbatch := hbuilt.batched r hr
  have hpayload : ∀ l ∈ landings r, PayloadOk (landingMessage memory source) l :=
    fun l hl => payload_ok hmeta hplan hdeploy hr hbatch hbuilt.sources hl
  have hviews := views_apart hmeta hplan hdeploy hr hbatch
  obtain ⟨final, hfinal, hread, hothers⟩ := receiveDirectly_spec cast hbatch.spec.ok hpayload hviews (memory r)
  obtain ⟨received, together, hreceived, hsync, hread', hothers'⟩ := delivered cast hbatch.spec.ok hpayload
    hbatch.spec.apart hviews (.refl _) (batch r).memory
  obtain ⟨together', hfinish, hupdated⟩ := update_finishes cast hmeta hplan hdeploy hr hbatch hbuilt.sources (.refl _)
  have hsame : finishUpdate cast (batch r) ((landings r).map fun l => (l.p2p, landingMessage memory source l)) =
      .ok together := Except.bind_eq_ok.mpr ⟨received, hreceived, hbatch.spec.pairs ▸ hsync⟩
  obtain rfl := Except.ok.inj (hsame.symm.trans hfinish)
  refine ⟨final, hfinal, hupdated.congr fun a ha => ?_⟩
  by_cases hview : ∃ l ∈ landings r, a ∈ l.view.addresses
  · obtain ⟨l, hl, hmem⟩ := hview
    have hcells : l.view.addresses.map final.cells = l.view.addresses.map together.cells :=
      (hread l hl).trans (hread' l hl).symm
    exact List.map_inj_left.mp hcells a hmem
  · have hnone : ∀ l ∈ landings r, a ∉ l.view.addresses := fun l hl hmem => hview ⟨l, hl, hmem⟩
    rw [hothers a ha hnone, hothers' a ha hnone]
    exact (hbatch.spec.extends_memory.cells_eq a fun n hn => absurd hn (ha n)).symm

theorem OneByOneBuilt.oneSided : ∃ final, OneSided (waitedOperations cast) (oneByOneNet b sent posted)
    (trainRanks b.inferWorldSize b.worldSize) (List.range b.inferWorldSize)
    (messagePairs b plan memory sent landings source) final ∧
    ∀ r < b.inferWorldSize, Updated b infer train parameters memory r (final r) := by
  have hfinal : ∀ r, ∃ final, r < b.inferWorldSize →
      receiveDirectly cast (landingMessage memory source) (memory r) (landings r) = .ok final ∧
        Updated b infer train parameters memory r final := by
    intro r
    by_cases hr : r < b.inferWorldSize
    · obtain ⟨final, hfinal⟩ := hbuilt.received cast hmeta hplan hdeploy hr
      exact ⟨final, fun _ => hfinal⟩
    · exact ⟨memory r, fun h => absurd h hr⟩
  choose final hfinal using hfinal
  refine ⟨final, ⟨?_, fun _ _ => rfl, ?_, ?_, ?_, ?_, ?_⟩, fun r hr => (hfinal r hr).2⟩
  · exact hbuilt.remaining hmeta hplan hdeploy
  · intro t ht p hp
    obtain ⟨ht, htw⟩ := (mem_trainRanks _ _ t).mp ht
    rw [messagePairs_train ht htw] at hp
    obtain ⟨⟨e, p2p⟩, hmem, rfl⟩ := List.mem_map.mp hp
    obtain ⟨haction, hlt, hmessage⟩ := hbuilt.send_message hmeta hplan ht htw hmem
    refine ⟨⟨e.1, List.mem_range.mpr hlt, haction⟩, ?_⟩
    have hstate : (oneByOneNet b sent posted).state t = (sent t).workspace.memory := if_neg (not_lt.mpr ht)
    rw [hstate]
    exact congrArg Except.toOption hmessage
  · intro r hr p hp
    rw [List.mem_range] at hr
    rw [messagePairs_infer hr] at hp
    obtain ⟨l, hl, rfl⟩ := List.mem_map.mp hp
    obtain ⟨hop, hsend, -⟩ := landing_op hplan hr (hbuilt.batched r hr) hl
    refine ⟨l.peer, (mem_trainRanks _ _ _).mpr ?_, rfl⟩
    rw [← hsend]
    exact ⟨(planned_law hmeta hop).2.2.1, send_lt hmeta hdeploy hop⟩
  · intro a hs hr
    rw [mem_trainRanks] at hs
    rw [List.mem_range] at hr
    rw [messagePairs, if_neg hr, if_neg fun hlt => hs ⟨not_lt.mp hr, hlt⟩]
  · intro t ht r hr
    obtain ⟨ht, htw⟩ := (mem_trainRanks _ _ t).mp ht
    rw [hbuilt.sentTo_eq cast hplan ht htw,
      hbuilt.takenFrom_eq cast hplan (List.mem_range.mp hr)]
  · intro r hr
    rw [List.mem_range] at hr
    have hstate : (oneByOneNet b sent posted).state r = memory r :=
      (if_pos hr).trans (ncclBuildRecvOps_direct (hbuilt.recvs r hr)).1
    rw [hstate, messagePairs_infer hr, receiveEach_landings, (hfinal r hr).1]
    rfl

end Messages

/-- The path without batches, however far each rank has got and whichever messages are buffered: it goes
on without a further buffer, it can be finished, and once it has finished every inference rank has what
the batched path gives it. -/
theorem one_by_one_agrees (cast : Dtype → Dtype → α → α) (b : TransferPlanBuilder) (infer train : List ParameterMeta)
    (plan : ℕ → TransferPlan) (parameters : ℕ → Dict String Parameter) (memory : ℕ → Memory α)
    (hmeta : CommonMetadata b infer train)
    (hplan : ∀ g < b.worldSize, buildLocalTransferPlan b infer train g = .ok (plan g))
    (hdeploy : Deployment b infer train parameters) :
    ∃ (sent : ℕ → SendOps α) (posted : ℕ → RecvOps α),
      (∀ t, b.inferWorldSize ≤ t → t < b.worldSize →
        ncclBuildSendOps (parameters t) (plan t) (-1) false (memory t) = .ok (sent t)) ∧
      (∀ r < b.inferWorldSize, ncclBuildRecvOps (parameters r) (plan r) false (memory r) = .ok (posted r)) ∧
      ∀ schedule n, run (fire (waitedOperations cast)) (oneByOneNet b sent posted) schedule = some n →
        (n.Finished ∨ ∃ n', Takes (waitedOperations cast) n n' ∨ Channels.Exchanges (waitedOperations cast) n n') ∧
        (∃ rest m, run (fire (waitedOperations cast)) n rest = some m ∧ m.Finished) ∧
        (n.Finished → (∀ s r, n.queue s r = []) ∧ ∀ r < b.inferWorldSize, ∃ final,
          syncNonContiguousTensorPairs cast (posted r).nonContiguousTensorPairs (n.state r) = .ok final ∧
          Updated b infer train parameters memory r final ∧
          ∀ batched, UpdateRun cast b plan parameters memory r batched → batched.SameParameters final) := by
  obtain ⟨sent, posted, batch, landings, source, hbuilt⟩ := oneByOneBuilt_exists hmeta hplan hdeploy memory
  have hsent := fun t ht htw => (hbuilt.sends t ht htw).1
  obtain ⟨left, hfollows⟩ := oneByOneNet_follows cast hmeta hplan hdeploy hsent hbuilt.recvs
  obtain ⟨final, honeSided, hupdated⟩ := hbuilt.oneSided cast hmeta hplan hdeploy
  obtain ⟨whole, m, hwhole, hm, hstate, hqueue⟩ := honeSided.finishes fun a ha hr => by
    rw [mem_trainRanks] at ha
    rw [List.mem_range] at hr
    omega
  refine ⟨sent, posted, hsent, hbuilt.recvs, fun schedule n hrun => ?_⟩
  obtain ⟨rest, hrest, -⟩ := run_completes (fire_commute _) hwhole hm.ended hrun
  refine ⟨?_, ⟨rest, m, hrest, hm⟩, fun hn => ?_⟩
  · obtain ⟨left', hleft'⟩ := run_invariant (P := fun n => ∃ left, Channels.Follows (waitedOperations cast) n left)
      (fun n a n' hn hfire => by
        obtain ⟨left, hleft⟩ := hn
        exact hleft.fires ((fire_eq_some _).mp hfire)) hrun ⟨left, hfollows⟩
    exact hleft'.progress hrest hm
  · obtain rfl := run_end_unique (fire_commute _) hwhole hm.ended hrun hn.ended
    refine ⟨hqueue, fun r hr => ⟨final r, ?_, hupdated r hr, fun batched hbatched => ?_⟩⟩
    · rw [(ncclBuildRecvOps_direct (hbuilt.recvs r hr)).2, hstate, if_pos (List.mem_range.mpr hr)]
      rfl
    · exact (hbatched.updated hmeta hplan hdeploy hr).unique hmeta hdeploy (hupdated r hr)

theorem one_by_one_agrees_gateProj : ∃ (sent : ℕ → SendOps ℕ) (posted : ℕ → RecvOps ℕ) (schedule : List ℕ)
    (n : Net ℕ P2POp (Memory ℕ) (Message ℕ)) (final : Memory ℕ),
    run (fire (waitedOperations fun _ _ a => a)) (oneByOneNet .twoEngines sent posted) schedule = some n ∧ n.Finished ∧
      syncNonContiguousTensorPairs (fun _ _ a => a) (posted 3).nonContiguousTensorPairs (n.state 3) = .ok final ∧
      final.cells (.inference 0, 4) = 52 := by
  obtain ⟨sent, posted, -, -, hruns⟩ := one_by_one_agrees (fun _ _ a => a) .twoEngines [gateProjInfer]
    [gateProjTrain] gateProjPlan gateProjParameters gateProjMemory gateProj_commonMetadata gateProj_plans
    gateProj_deployment
  obtain ⟨-, ⟨schedule, n, hrun, hn⟩, -⟩ := hruns [] _ rfl
  obtain ⟨-, -, hdone⟩ := hruns schedule n hrun
  obtain ⟨-, hfinal⟩ := hdone hn
  obtain ⟨final, hsync, hupdated, -⟩ := hfinal 3 (by decide)
  have hsource : SourceElement .twoEngines gateProjInfer gateProjTrain 1
      (ShardSpec.shard ⟨1, 3, 5⟩ gateProjInfer.name 2 2) [4]
      (ShardSpec.shard ⟨1, 5, 3⟩ gateProjInfer.name 2 2) [2] :=
    ⟨⟨1, _, _, rfl, rfl, by decide, by decide⟩, by decide, by decide⟩
  obtain ⟨-, hvalue⟩ := hupdated.elements gateProjInfer.name gateProjInfer gateProjTrain rfl rfl 1
    (by decide) _ (List.mem_singleton_self _) (ShardSpec.shard ⟨1, 3, 5⟩ gateProjInfer.name 2 2)
    (by decide) (by decide) [4] (by decide)
  obtain ⟨p, q, hp, hq, hcells⟩ := hvalue _ _ hsource
  obtain rfl := Option.some.inj hp
  obtain rfl := Option.some.inj hq
  exact ⟨sent, posted, schedule, n, final, hrun, hn, hsync, hcells⟩

end Awex
