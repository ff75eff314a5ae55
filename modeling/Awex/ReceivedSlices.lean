import Awex.Handover
import Awex.HeldParameters
import Awex.NcclStages

namespace Awex

open NcclColocateTransport

variable {α : Type}

theorem validated {trainToInfer inferToTrain : Dict ℕ ℕ} (h : validateRankMappings trainToInfer inferToTrain = .ok ())
    {t r : ℕ} (ht : trainToInfer.get? t = some r) : inferToTrain.get? r = some t := by
  obtain ⟨_, hone, -⟩ := Except.bind_eq_ok.mp h
  exact validateOneWay_get? hone ht

namespace ColocateUpdate

variable {u : ColocateUpdate} (hvalid : validateRankMappings u.trainToInfer u.inferToTrain = .ok ())

include hvalid

theorem recvLists_of_entry {e : ℕ × List CommunicationOperation} (he : e ∈ u.recvTransferPlan.operations.entries)
    {p : ℕ} (hp : u.trainToInfer.get? e.1 = some p) (hne : p ≠ u.transferRank) :
    u.recvLists.get? p = some e.2 := by
  apply Dict.get?_foldl_of_mem (List.Nodup.of_map _ u.recvTransferPlan.operations.nodup) he
  · intro d
    rw [recvStep, hp]
    dsimp only
    rw [if_neg hne, Dict.get?_set, if_pos rfl]
  -- no other training rank is mapped to `p`
  · intro e' he' hother d
    unfold recvStep
    cases hr : u.trainToInfer.get? e'.1 with
    | none => rfl
    | some r =>
      have hrp : r ≠ p := by
        rintro rfl
        have hkey := Option.some.inj ((validated hvalid hr).symm.trans (validated hvalid hp))
        exact hother (List.inj_on_of_nodup_map u.recvTransferPlan.operations.nodup he' he hkey)
      dsimp only
      split_ifs
      · rfl
      · rw [Dict.get?_set, if_neg hrp]

theorem mem_fromPeer {p : ℕ} {op : CommunicationOperation} : op ∈ u.fromPeer p ↔ p ≠ u.transferRank ∧
    ∃ e ∈ u.recvTransferPlan.operations.entries, u.trainToInfer.get? e.1 = some p ∧ op ∈ e.2 := by
  constructor
  · intro hop
    rw [fromPeer, Dict.getD] at hop
    cases h : u.recvLists.get? p with
    | none => simp [h] at hop
    | some ops =>
      obtain ⟨e, he, rfl, hp, hne⟩ := u.recvLists_get? h
      exact ⟨hne, e, he, hp, by simpa [h] using hop⟩
  · rintro ⟨hne, e, he, hp, hop⟩
    rw [fromPeer, Dict.getD, recvLists_of_entry hvalid he hp hne]
    exact hop

theorem fromPeer_eq {t p : ℕ} (ht : u.trainToInfer.get? t = some p) (hne : p ≠ u.transferRank) :
    u.fromPeer p = u.recvTransferPlan.operations.getD t [] := by
  unfold fromPeer Dict.getD
  cases hget : u.recvTransferPlan.operations.get? t with
  | some ops => rw [recvLists_of_entry hvalid ((Dict.get?_eq_some _ t ops).mp hget) ht hne]
  | none =>
    cases hlist : u.recvLists.get? p with
    | none => rfl
    | some ops =>
      obtain ⟨e, he, -, hp, -⟩ := u.recvLists_get? hlist
      have hkey : e.1 = t := Option.some.inj ((validated hvalid hp).symm.trans (validated hvalid ht))
      rw [← hkey, (Dict.get?_eq_some _ e.1 e.2).mpr he] at hget
      cases hget

omit hvalid in
theorem toPeer_eq (hunmapped : ∀ e ∈ u.sendTransferPlan.operations.entries, u.trainToInfer.get? e.1 = none) {p : ℕ}
    (hne : p ≠ u.transferRank) : u.toPeer p = u.sendTransferPlan.operations.getD p [] := by
  have hsame : ∀ e ∈ u.sendTransferPlan.operations.entries, mapRank u.trainToInfer e.1 = e.1 := by
    intro e he
    rw [mapRank, Dict.getD, hunmapped e he, Option.getD_none]
  unfold toPeer Dict.getD
  cases hget : u.sendTransferPlan.operations.get? p with
  | some ops =>
    have he := (Dict.get?_eq_some _ p ops).mp hget
    have hlist : u.sendLists.get? p = some ops := by
      apply Dict.get?_foldl_of_mem (List.Nodup.of_map _ u.sendTransferPlan.operations.nodup) he
      · intro d
        rw [sendStep, hsame _ he, if_neg hne, Dict.get?_set, if_pos rfl]
      · intro e' he' hother d
        have hkey : e'.1 ≠ p :=
          fun heq => hother (List.inj_on_of_nodup_map u.sendTransferPlan.operations.nodup he' he heq)
        unfold sendStep
        rw [hsame _ he']
        split_ifs
        · rfl
        · rw [Dict.get?_set, if_neg hkey]
    rw [hlist]
  | none =>
    cases hlist : u.sendLists.get? p with
    | none => rfl
    | some ops =>
      obtain ⟨e, he, -, hp, -⟩ := u.sendLists_get? hlist
      rw [hsame e he] at hp
      rw [← hp, (Dict.get?_eq_some _ e.1 e.2).mpr he] at hget
      cases hget

theorem stageRecvs_eq {stage t : ℕ} (hmapped : u.inferToTrain.get? (recvFromRank u stage) = some t) :
    stageRecvs u stage = u.fromPeer (recvFromRank u stage) := by
  have hrank : mapRank u.inferToTrain (recvFromRank u stage) = t := by
    rw [mapRank, Dict.getD, hmapped, Option.getD_some]
  rw [stageRecvs, hrank]
  split_ifs with hself
  · rw [hself, u.fromPeer_self]
  · exact (fromPeer_eq hvalid (validateRankMappings_get? hvalid hmapped) hself).symm

end ColocateUpdate

namespace NcclColocateTransport

variable {u : ColocateUpdate} {cast : Dtype → Dtype → α → α} {m : Memory α}

theorem preparePhases_mapped {r : List (List BuiltOp) × Memory α} (h : preparePhases u cast m = .ok r) :
    validateRankMappings u.trainToInfer u.inferToTrain = .ok () ∧
      ∀ stage < u.worldSize, ∃ t, u.inferToTrain.get? (recvFromRank u stage) = some t := by
  obtain ⟨_, hvalid, h⟩ := Except.bind_eq_ok.mp h
  obtain ⟨b, hb, -⟩ := Except.bind_eq_ok.mp h
  refine ⟨hvalid, fun stage hstage => ?_⟩
  obtain ⟨s, s', hs⟩ := Except.foldlM_visits hb (List.mem_range.mpr hstage)
  obtain ⟨sends, -, hs⟩ := Except.bind_eq_ok.mp hs
  obtain ⟨t, ht, -⟩ := Except.bind_eq_ok.mp hs
  exact ⟨t, ColocateUpdate.lookupRank_eq_ok.mp ht⟩

section Peers

variable (hrank : u.transferRank < u.worldSize) {p : ℕ} (hp : p < u.worldSize) (hself : p ≠ u.transferRank)

include hrank hp hself

theorem sendToRank_of_peer : ∃ stage < u.worldSize, stage ≠ 0 ∧ sendToRank u stage = p ∧
    ∀ stage' < u.worldSize, sendToRank u stage' = p → stage' = stage := by
  unfold sendToRank
  rcases Nat.lt_or_gt_of_ne hself with hlt | hgt
  · refine ⟨p + u.worldSize - u.transferRank, by omega, by omega, ?_, fun stage' hstage' heq => ?_⟩
    · dsimp only
      rw [if_pos (by omega)]
      omega
    · dsimp only at heq
      split_ifs at heq <;> omega
  · refine ⟨p - u.transferRank, by omega, by omega, ?_, fun stage' hstage' heq => ?_⟩
    · dsimp only
      rw [if_neg (by omega)]
      omega
    · dsimp only at heq
      split_ifs at heq <;> omega

theorem recvFromRank_of_peer : ∃ stage < u.worldSize, stage ≠ 0 ∧ recvFromRank u stage = p ∧
    ∀ stage' < u.worldSize, recvFromRank u stage' = p → stage' = stage := by
  unfold recvFromRank
  rcases Nat.lt_or_gt_of_ne hself with hlt | hgt
  · refine ⟨u.transferRank - p, by omega, by omega, ?_, fun stage' hstage' heq => ?_⟩
    · rw [if_neg (by omega)]
      omega
    · split_ifs at heq <;> omega
  · refine ⟨u.transferRank + u.worldSize - p, by omega, by omega, ?_, fun stage' hstage' heq => ?_⟩
    · rw [if_pos (by omega)]
      omega
    · split_ifs at heq <;> omega

end Peers

theorem recvFromRank_lt_worldSize (hrank : u.transferRank < u.worldSize) {stage : ℕ} (hstage : stage < u.worldSize) :
    recvFromRank u stage < u.worldSize := by
  unfold recvFromRank
  split_ifs <;> omega

theorem mem_orderedPhases {s : StageOps} (h : s.stageOffset ≠ 0) {built : BuiltOp} :
    (∃ ops ∈ orderedPhases u s, built ∈ ops) ↔ built ∈ s.sendOps ∨ built ∈ s.recvOps := by
  unfold orderedPhases
  rw [if_neg h]
  split_ifs
  · simp
  · simp [or_comm]

theorem stage_posts {stage : ℕ} (hstage : stage < u.worldSize) {s : StageOps} (h : StagePosted u m stage s) (p : ℕ) :
    (orderedPhases u s).flatten.filter (fun built => built.2.op = .send ∧ built.2.peer = p) =
        (if stage ≠ 0 ∧ sendToRank u stage = p then s.sendOps else []) ∧
      (orderedPhases u s).flatten.filter (fun built => built.2.op = .recv ∧ built.2.peer = p) =
        if stage ≠ 0 ∧ recvFromRank u stage = p then s.recvOps else [] := by
  have hsends : ∀ built ∈ s.sendOps, built.2.op = .send ∧ built.2.peer = sendToRank u stage := by
    intro built hbuilt
    obtain ⟨op, -, hsent⟩ := exists_of_forall₂_mem_right h.sends hbuilt
    exact ⟨hsent.send, hsent.peer⟩
  have hrecvs : ∀ built ∈ s.recvOps, built.2.op = .recv ∧ built.2.peer = recvFromRank u stage := by
    intro built hbuilt
    rw [h.recvs] at hbuilt
    obtain ⟨op, -, rfl⟩ := List.mem_map.mp hbuilt
    exact ⟨rfl, rfl⟩
  have hoffset : s.stageOffset = stage := h.offset.trans (Nat.mod_eq_of_lt hstage)
  unfold orderedPhases
  rw [hoffset]
  by_cases hzero : stage = 0
  · simp [hzero]
  · rw [if_neg hzero]
    by_cases hphase : computeTwoPhasePartition u.transferRank stage u.worldSize = 0
    all_goals
      simp only [hphase, ↓reduceIte, List.flatten_cons, List.flatten_nil, List.append_nil, List.filter_append,
        filter_addressed hsends, filter_addressed hrecvs]
      simp [hzero]

theorem phases_posts (hrank : u.transferRank < u.worldSize) {r : List (List BuiltOp) × Memory α}
    (h : preparePhases u cast m = .ok r) {p : ℕ} (hp : p < u.worldSize) (hself : p ≠ u.transferRank) :
    (∃ m' : Memory α, List.Forall₂ (StageSent u m' p) (u.sendTransferPlan.operations.getD p [])
      (r.1.flatten.filter (fun built => built.2.op = .send ∧ built.2.peer = p))) ∧
    r.1.flatten.filter (fun built => built.2.op = .recv ∧ built.2.peer = p) =
      (u.fromPeer p).map (u.recvBuilt p) := by
  obtain ⟨hvalid, hmapped⟩ := preparePhases_mapped h
  obtain ⟨m', stages, hposted, hphases⟩ := preparePhases_spec h
  have hflatten : r.1.flatten = stages.flatMap (fun s => (orderedPhases u s).flatten) := by
    rw [hphases, List.flatMap_def, List.flatMap_def, List.flatten_flatten, List.map_map]
    rfl
  rw [hflatten, List.filter_flatMap, List.filter_flatMap]
  constructor
  · obtain ⟨stage, hstage, hpos, hto, honly⟩ := sendToRank_of_peer hrank hp hself
    obtain ⟨s, hs, heq⟩ := flatMap_of_forall₂ hposted List.nodup_range (List.mem_range.mpr hstage)
      (f := fun s => (orderedPhases u s).flatten.filter (fun built => built.2.op = .send ∧ built.2.peer = p))
      (fun stage' hstage' s' hs' hne => by
        rw [(stage_posts (List.mem_range.mp hstage') hs' p).1, if_neg]
        exact fun hc => hne (honly stage' (List.mem_range.mp hstage') hc.2))
    refine ⟨m', ?_⟩
    rw [heq, (stage_posts hstage hs p).1, if_pos ⟨hpos, hto⟩]
    have hsends := hs.sends
    rwa [stageSends, hto, if_neg hself] at hsends
  · obtain ⟨stage, hstage, hpos, hfrom, honly⟩ := recvFromRank_of_peer hrank hp hself
    obtain ⟨s, hs, heq⟩ := flatMap_of_forall₂ hposted List.nodup_range (List.mem_range.mpr hstage)
      (f := fun s => (orderedPhases u s).flatten.filter (fun built => built.2.op = .recv ∧ built.2.peer = p))
      (fun stage' hstage' s' hs' hne => by
        rw [(stage_posts (List.mem_range.mp hstage') hs' p).2, if_neg]
        exact fun hc => hne (honly stage' (List.mem_range.mp hstage') hc.2))
    obtain ⟨t, ht⟩ := hmapped stage hstage
    rw [heq, (stage_posts hstage hs p).2, if_pos ⟨hpos, hfrom⟩, hs.recvs, ColocateUpdate.stageRecvs_eq hvalid ht, hfrom]

theorem phases_contiguous_iff (hrank : u.transferRank < u.worldSize) {r : List (List BuiltOp) × Memory α}
    (h : preparePhases u cast m = .ok r) :
    (∀ ops ∈ r.1, ∀ built ∈ ops, built.2.tensor.IsContiguous) ↔
      ∀ p < u.worldSize, ∀ op ∈ u.fromPeer p, (u.recvView op).IsContiguous := by
  obtain ⟨hvalid, hmapped⟩ := preparePhases_mapped h
  obtain ⟨m', stages, hposted, hphases⟩ := preparePhases_spec h
  constructor
  · intro hall p hp op hop
    have hself := ((ColocateUpdate.mem_fromPeer hvalid).mp hop).1
    obtain ⟨stage, hstage, hpos, rfl, -⟩ := recvFromRank_of_peer hrank hp hself
    obtain ⟨s, hs, hspec⟩ := exists_of_forall₂_mem hposted (List.mem_range.mpr hstage)
    obtain ⟨t, ht⟩ := hmapped stage hstage
    have hbuilt : u.recvBuilt (recvFromRank u stage) op ∈ s.recvOps := by
      rw [hspec.recvs]
      rw [ColocateUpdate.stageRecvs_eq hvalid ht]
      exact List.mem_map_of_mem hop
    have hoffset : s.stageOffset ≠ 0 := by
      rw [hspec.offset, Nat.mod_eq_of_lt hstage]
      omega
    obtain ⟨ops, hops, hmem⟩ := (mem_orderedPhases (u := u) hoffset).mpr (.inr hbuilt)
    exact hall ops (hphases ▸ List.mem_flatMap.mpr ⟨s, hs, hops⟩) _ hmem
  · intro hall ops hops built hbuilt
    rw [hphases] at hops
    obtain ⟨s, hs, hops⟩ := List.mem_flatMap.mp hops
    obtain ⟨stage, hstage, hspec⟩ := exists_of_forall₂_mem_right hposted hs
    rw [List.mem_range] at hstage
    have hoffset : s.stageOffset ≠ 0 := by
      intro hzero
      rw [orderedPhases, if_pos hzero] at hops
      exact absurd hops List.not_mem_nil
    rcases (mem_orderedPhases (u := u) hoffset).mp ⟨ops, hops, hbuilt⟩ with hsend | hrecv
    · obtain ⟨op, -, hsent⟩ := exists_of_forall₂_mem_right hspec.sends hsend
      exact hsent.carries.contiguous
    · obtain ⟨t, ht⟩ := hmapped stage hstage
      rw [hspec.recvs, ColocateUpdate.stageRecvs_eq hvalid ht] at hrecv
      obtain ⟨op, hop, rfl⟩ := List.mem_map.mp hrecv
      exact hall _ (recvFromRank_lt_worldSize hrank hstage) op hop

end NcclColocateTransport

end Awex
