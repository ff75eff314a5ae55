import Awex.ChunkedTransfer
import Awex.SeparateTransfer

namespace Awex

theorem planned_ranks {b : TransferPlanBuilder} {infer train : List ParameterMeta} {g : Option ℕ}
    {ops : List CommunicationOperation} (h : buildWeightsMappingOperations b infer train g = .ok ops) :
    ∀ op ∈ ops, checkRanks b op.sendRank op.recvRank = .ok () := by
  intro op hop
  obtain ⟨hok, rfl⟩ := (buildWeightsMappingOperations_ok_iff _ _ _ _ _).mp h
  rcases hok with hempty | hok
  · rw [plannedOperations_empty b infer train g hempty] at hop
    simp at hop
  · obtain ⟨name, im, tm, hi, ht, hop⟩ := mem_plannedOperations.mp hop
    obtain ⟨a, ha, hop⟩ := List.mem_flatMap.mp hop
    obtain ⟨i, hitem, rfl⟩ := List.mem_map.mp hop
    have hname := mem_plannedParams.mpr ⟨im, tm, hi, ht⟩
    exact (((hok.params name hname im tm hi ht).replicas a ha).items i hitem).ranks

theorem recvRank_lt {b : TransferPlanBuilder} {sendRank recvRank : ℕ}
    (h : checkRanks b sendRank recvRank = .ok ()) : recvRank < b.inferWorldSize := by
  unfold checkRanks at h
  split_ifs at h
  omega

section Planned

variable {b : TransferPlanBuilder} {infer train : List ParameterMeta} {plan : TransferPlan}
  {e : ℕ × List CommunicationOperation}

theorem mem_trainPlan {t : ℕ} {op : CommunicationOperation} (ht : b.inferWorldSize ≤ t)
    (h : buildLocalTransferPlan b infer train t = .ok plan) (he : e ∈ plan.operations.entries) (hop : op ∈ e.2) :
    op ∈ plannedOperations b infer train none ∧ op.sendRank = t ∧ op.recvRank = e.1 := by
  have hget := (Dict.get?_eq_some plan.operations e.1 e.2).mpr he
  rw [trainPlan_get? b infer train t e.1 ht plan h] at hget
  split_ifs at hget
  rwa [← Option.some.inj hget, mem_pairOperations] at hop

theorem mem_inferPlan {r : ℕ} {op : CommunicationOperation} (hr : r < b.inferWorldSize)
    (h : buildLocalTransferPlan b infer train r = .ok plan) (he : e ∈ plan.operations.entries) (hop : op ∈ e.2) :
    op ∈ plannedOperations b infer train none ∧ op.sendRank = e.1 ∧ op.recvRank = r := by
  have hget := (Dict.get?_eq_some plan.operations e.1 e.2).mpr he
  rw [inferPlan_get? b infer train e.1 r hr plan h] at hget
  split_ifs at hget
  rwa [← Option.some.inj hget, mem_pairOperations] at hop

theorem trainPlan_entry_lt {t : ℕ} (ht : b.inferWorldSize ≤ t) (h : buildLocalTransferPlan b infer train t = .ok plan)
    (he : e ∈ plan.operations.entries) : e.1 < b.inferWorldSize := by
  have hget := (Dict.get?_eq_some plan.operations e.1 e.2).mpr he
  rw [trainPlan_get? b infer train t e.1 ht plan h] at hget
  split_ifs at hget with hex
  obtain ⟨op, hop, hsend, hrecv⟩ := hex
  rw [buildLocalTransferPlan, Except.bind_eq_ok] at h
  obtain ⟨ops, hbuilt, -⟩ := h
  have hown : op ∈ ownOperations b t ops := by
    rw [ownOperations_built b infer train t _ ops hbuilt]
    exact List.mem_filter.mpr ⟨hop, by simp [ownRank, isTrainRank, ht, hsend]⟩
  rw [← hrecv]
  exact recvRank_lt (planned_ranks hbuilt op (List.mem_of_mem_filter hown))

end Planned

namespace ColocateUpdate

variable {α : Type} {u : ColocateUpdate} {cast : Dtype → Dtype → α → α}

theorem sliceSendOp_op {op : CommunicationOperation} {w w' : Workspace α}
    {e : CommunicationOperation × Tensor} (h : u.sliceSendOp op w = .ok (e, w')) : e.1 = op := by
  obtain ⟨p, -, h⟩ := Except.bind_eq_ok.mp h
  obtain ⟨⟨t, w₁⟩, -, h⟩ := Except.bind_eq_ok.mp h
  obtain ⟨rfl, -⟩ := Prod.mk.inj (Except.ok.inj h)
  rfl

theorem sliced_ops {ops : List CommunicationOperation} {w w' : Workspace α}
    {sliced : List (CommunicationOperation × Tensor)}
    (h : buildEach u.sliceSendOp ops w = .ok (sliced, w')) : sliced.map Prod.fst = ops := by
  induction ops generalizing w sliced with
  | nil =>
    obtain ⟨rfl, -⟩ := Prod.mk.inj (Except.ok.inj h)
    rfl
  | cons op ops ih =>
    obtain ⟨⟨e, w₁⟩, he, h⟩ := Except.bind_eq_ok.mp h
    obtain ⟨⟨rest, w₂⟩, hrest, h⟩ := Except.bind_eq_ok.mp h
    obtain ⟨rfl, rfl⟩ := Prod.mk.inj (Except.ok.inj h)
    rw [List.map_cons, sliceSendOp_op he, ih hrest]

theorem processSends_self {s s' : SendOperations α}
    (h : u.sendTransferPlan.operations.entries.foldlM (u.processSend cast) s = .ok s') :
    s'.tensorsToCopy.map Prod.fst = s.tensorsToCopy.map Prod.fst ++ u.selfOps := by
  refine Except.foldlM_induction (fun done r => r.tensorsToCopy.map Prod.fst =
    s.tensorsToCopy.map Prod.fst ++ done.flatMap u.selfEntry) h (by simp) (fun done e r r' _ hr hstep => ?_)
  rw [List.flatMap_append, List.flatMap_singleton, ← List.append_assoc, ← hr, selfEntry]
  unfold processSend at hstep
  dsimp only at hstep
  split_ifs at hstep ⊢ with hself
  · obtain ⟨⟨sliced, w⟩, hsliced, hstep⟩ := Except.bind_eq_ok.mp hstep
    obtain rfl := Except.ok.inj hstep
    rw [List.map_append, sliced_ops hsliced]
  · obtain ⟨⟨built, w⟩, -, hstep⟩ := Except.bind_eq_ok.mp hstep
    obtain rfl := Except.ok.inj hstep
    exact (List.append_nil _).symm

theorem splitSelf_ops {ops : List CommunicationOperation}
    (hpaired : ∀ op ∈ ops, u.inferToTrain.get? u.transferRank = some op.sendRank) {s s' : SplitSends α}
    (h : ops.foldlM u.splitSelfOp s = .ok s') :
    s'.tensorsToCopy.map Prod.fst = s.tensorsToCopy.map Prod.fst ++ ops := by
  refine Except.foldlM_induction (fun done r => r.tensorsToCopy.map Prod.fst =
    s.tensorsToCopy.map Prod.fst ++ done) h (by simp) (fun done op r r' hop hr hstep => ?_)
  have hown : (u.inferToTrain.get? u.transferRank).any (op.sendRank ≠ ·) = false := by
    simp [hpaired op hop]
  rw [splitSelfOp, hown] at hstep
  obtain ⟨⟨e, w⟩, he, hstep⟩ := Except.bind_eq_ok.mp hstep
  obtain rfl := Except.ok.inj hstep
  rw [List.map_append, hr, List.append_assoc, List.map_singleton, sliceSendOp_op he]

theorem splitSends_self (hpaired : u.SelfPaired) {s s' : SplitSends α}
    (h : u.sendTransferPlan.operations.entries.foldlM u.splitSend s = .ok s') :
    s'.tensorsToCopy.map Prod.fst = s.tensorsToCopy.map Prod.fst ++ u.selfOps := by
  refine Except.foldlM_induction (fun done r => r.tensorsToCopy.map Prod.fst =
    s.tensorsToCopy.map Prod.fst ++ done.flatMap u.selfEntry) h (by simp) (fun done e r r' he hr hstep => ?_)
  rw [List.flatMap_append, List.flatMap_singleton, ← List.append_assoc, ← hr, selfEntry]
  unfold splitSend at hstep
  dsimp only at hstep
  split_ifs at hstep ⊢ with hself
  · exact splitSelf_ops (hpaired e he hself) hstep
  · split at hstep
    · simp at hstep
    · obtain rfl := Except.ok.inj hstep
      exact (List.append_nil _).symm

theorem executeSelfCopies_copies {tensors : List (CommunicationOperation × Tensor)} {m : Memory α}
    {copies : List (CommunicationOperation × CommunicationOperation)} {m' : Memory α}
    (h : u.executeSelfCopies cast tensors m = .ok (copies, m')) {t : ℕ}
    (ht : u.inferToTrain.get? u.transferRank = some t) :
    copies = (tensors.map Prod.fst).zip (u.recvTransferPlan.operations.getD t []) := by
  unfold executeSelfCopies at h
  split_ifs at h with hnil
  · obtain ⟨rfl, -⟩ := Prod.mk.inj (Except.ok.inj h)
    rw [hnil]
    rfl
  · obtain ⟨t', ht', h⟩ := Except.bind_eq_ok.mp h
    obtain rfl := Option.some.inj (ht.symm.trans (lookupRank_eq_ok.mp ht'))
    obtain ⟨copyOps, hcopy, h⟩ := Except.bind_eq_ok.mp h
    obtain ⟨m₁, -, h⟩ := Except.bind_eq_ok.mp h
    obtain ⟨rfl, -⟩ := Prod.mk.inj (Except.ok.inj h)
    rw [Dict.getD, lookupRank_eq_ok.mp hcopy, Option.getD_some]

theorem outcome_copies (hpaired : u.SelfPaired) {chunks : Option (ℕ × ℕ)} {l : Link α} {o : Outcome α}
    (h : u.updateWeightsInColocateMode cast chunks l = .ok o) {t : ℕ}
    (ht : u.inferToTrain.get? u.transferRank = some t) :
    o.copies = u.selfOps.zip (u.recvTransferPlan.operations.getD t []) := by
  cases chunks with
  | none =>
    obtain ⟨-, h⟩ := updateWeightsInColocateMode_none.mp h
    obtain ⟨built, hbuilt, h⟩ := Except.bind_eq_ok.mp h
    obtain ⟨l', -, h⟩ := Except.bind_eq_ok.mp h
    obtain rfl := Except.ok.inj h
    obtain ⟨s, hs, h⟩ := Except.bind_eq_ok.mp hbuilt
    obtain ⟨d, -, h⟩ := Except.bind_eq_ok.mp h
    obtain ⟨⟨copies, m⟩, hcopies, h⟩ := Except.bind_eq_ok.mp h
    obtain rfl := Except.ok.inj h
    have hself := processSends_self hs
    rw [List.map_nil, List.nil_append] at hself
    rw [← hself]
    exact executeSelfCopies_copies hcopies ht
  | some chunks =>
    obtain ⟨-, h⟩ := updateWeightsInColocateMode_some.mp h
    obtain ⟨c, hc, h⟩ := Except.bind_eq_ok.mp h
    obtain ⟨s', -, h⟩ := Except.bind_eq_ok.mp h
    obtain rfl := Except.ok.inj h
    obtain ⟨s, hs, h⟩ := Except.bind_eq_ok.mp hc
    obtain ⟨d, -, h⟩ := Except.bind_eq_ok.mp h
    obtain ⟨built, -, h⟩ := Except.bind_eq_ok.mp h
    obtain ⟨⟨copies, m⟩, hcopies, h⟩ := Except.bind_eq_ok.mp h
    obtain rfl := Except.ok.inj h
    have hself := splitSends_self hpaired hs
    rw [List.map_nil, List.nil_append] at hself
    rw [← hself]
    exact executeSelfCopies_copies hcopies ht

end ColocateUpdate

/-- A device that is inference rank `r` and training rank `t`, with the plans that each side has
built for itself; the ranks that are mapped to inference ranks are training ranks. -/
structure PlannedUpdate (b : TransferPlanBuilder) (infer train : List ParameterMeta) (t r : ℕ)
    (u : ColocateUpdate) : Prop where
  send_plan : buildLocalTransferPlan b infer train t = .ok u.sendTransferPlan
  recv_plan : buildLocalTransferPlan b infer train r = .ok u.recvTransferPlan
  rank : u.transferRank = r
  paired : u.inferToTrain.get? r = some t
  training : ∀ k q, u.trainToInfer.get? k = some q → b.inferWorldSize ≤ k

theorem PlannedUpdate.selfOps_eq {b : TransferPlanBuilder} {infer train : List ParameterMeta} {t r : ℕ}
    {u : ColocateUpdate} (h : PlannedUpdate b infer train t r u) (ht : b.inferWorldSize ≤ t) :
    u.SelfPaired ∧ u.selfOps = u.sendTransferPlan.operations.getD r [] := by
  constructor
  · intro e he _ op hop
    rw [h.rank, h.paired, (mem_trainPlan ht h.send_plan he hop).2.1]
  · rw [← Dict.flatMap_key]
    apply List.flatMap_congr
    intro e he
    have hunmapped : u.trainToInfer.get? e.1 = none := by
      by_contra hne
      obtain ⟨q, hq⟩ := Option.ne_none_iff_exists'.mp hne
      have hlt := trainPlan_entry_lt ht h.send_plan he
      exact absurd (h.training e.1 q hq) (by omega)
    rw [ColocateUpdate.selfEntry, mapRank, Dict.getD, hunmapped, h.rank]
    rfl

/-- Both sides keep the same list for a pair of ranks, and a device that holds both copies its own
operations onto themselves. -/
theorem plan_agreement (b : TransferPlanBuilder) (infer train : List ParameterMeta) (t r : ℕ)
    (ht : b.inferWorldSize ≤ t) (hr : r < b.inferWorldSize) :
    (∀ sent received, buildLocalTransferPlan b infer train t = .ok sent →
      buildLocalTransferPlan b infer train r = .ok received →
        sent.operations.get? r = received.operations.get? t) ∧
    ∀ (α : Type) (cast : Dtype → Dtype → α → α) (u : ColocateUpdate) (chunks : Option (ℕ × ℕ)) (l : Link α)
      (o : Outcome α), PlannedUpdate b infer train t r u →
        u.updateWeightsInColocateMode cast chunks l = .ok o →
          o.copies = (u.sendTransferPlan.operations.getD r []).map (fun op => (op, op)) := by
  have hagree : ∀ sent received, buildLocalTransferPlan b infer train t = .ok sent →
      buildLocalTransferPlan b infer train r = .ok received →
        sent.operations.get? r = received.operations.get? t := by
    intro sent received hsent hreceived
    rw [trainPlan_get? b infer train t r ht sent hsent, inferPlan_get? b infer train t r hr received hreceived]
  refine ⟨hagree, fun α cast u chunks l o hu hrun => ?_⟩
  obtain ⟨hpaired, hself⟩ := hu.selfOps_eq ht
  rw [ColocateUpdate.outcome_copies hpaired hrun (by rw [hu.rank, hu.paired]), hself, Dict.getD, Dict.getD,
    ← hagree _ _ hu.send_plan hu.recv_plan, List.zip_eq_zipWith, List.zipWith_self]

/-- The device of inference rank 0 and training rank 4. -/
def gateProjUpdate : ColocateUpdate where
  sendTransferPlan := gateProjPlan 4
  recvTransferPlan := gateProjPlan 0
  trainToInfer := Dict.ofList [(4, 0), (5, 1)]
  inferToTrain := Dict.ofList [(0, 4), (1, 5)]
  transferRank := 0
  worldSize := 1
  sendParameters := gateProjParameters 4
  recvParameters := gateProjParameters 0

theorem gateProjUpdate_planned :
    PlannedUpdate .twoEngines [gateProjInfer] [gateProjTrain] 4 0 gateProjUpdate where
  send_plan := gateProj_plans 4 (by decide)
  recv_plan := gateProj_plans 0 (by decide)
  rank := rfl
  paired := rfl
  training := by
    intro k q h
    have hk := Dict.mem_of_get?_ofList _ _ _ h
    simp at hk
    have hworld : TransferPlanBuilder.twoEngines.inferWorldSize = 4 := rfl
    omega

theorem plan_agreement_gateProj :
    (gateProjPlan 4).operations.get? 0 = (gateProjPlan 0).operations.get? 4 ∧
      ∃ o, gateProjUpdate.updateWeightsInColocateMode (fun _ _ a => a) none
          ⟨gateProjMemory 0, fun _ => [], fun _ => []⟩ = .ok o ∧
        o.copies = ((gateProjPlan 4).operations.getD 0 []).map (fun op => (op, op)) := by
  obtain ⟨hlists, hcopies⟩ :=
    plan_agreement .twoEngines [gateProjInfer] [gateProjTrain] 4 0 (by decide) (by decide)
  obtain ⟨o, ho⟩ : ∃ o, gateProjUpdate.updateWeightsInColocateMode (fun _ _ a => a) none
      ⟨gateProjMemory 0, fun _ => [], fun _ => []⟩ = .ok o := ⟨_, rfl⟩
  exact ⟨hlists _ _ (gateProj_plans 4 (by decide)) (gateProj_plans 0 (by decide)), o, ho,
    hcopies ℕ _ gateProjUpdate none _ o gateProjUpdate_planned ho⟩

end Awex
